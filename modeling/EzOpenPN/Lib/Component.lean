import EzOpenPN.Lib.Interruption

/-!
# Scripts of a component

A program is often put together of scripts that were written for a part of its state each: one for
the firewall, one for the directories, one for everything else. `Script.adapt` turns a script of a
part into a script of the whole, which looks at the part and whose commands are commands of the
whole.

A `Component` says how the part is read and written, and `Machine.Embeds` that the commands of the
whole do to the part what those of the part do, and nothing else. Then **what is proved about a
script on its own part holds of it in the whole**, with the rest of the state as it was
(`Script.wpUntil_adapt`).
-/

/-- **A component of a state**, with the laws of reading and writing it. -/
structure Component (σ τ : Type) where
  get : σ → τ
  put : τ → σ → σ
  get_put : ∀ a s, get (put a s) = a
  put_put : ∀ a b s, put b (put a s) = put b s
  put_get : ∀ s, put (get s) s = s

/-- **A machine is embedded in another one**: a command of it does to the component what it does on
its own, and leaves everything else alone. -/
structure Machine.Embeds {ω ω' κ κ' χ χ' σ τ : Type} (M : Machine ω κ χ τ)
    (N : Machine ω' κ' χ' σ) (part : Component σ τ) (view : ω' → ω) (embed : κ → κ')
    (choice : χ' → χ) : Prop where
  obs : ∀ s, view (N.obs s) = M.obs (part.get s)
  perform : ∀ c x s, N.perform (embed c) x s =
    ((M.perform c (choice x) (part.get s)).1, part.put (M.perform c (choice x) (part.get s)).2 s)

namespace Script

variable {ω ω' κ κ' χ χ' σ τ α : Type}

/-- **A script of a part as a script of the whole.** -/
def adapt (view : ω' → ω) (embed : κ → κ') : Script ω κ α → Script ω' κ' α
  | done a => done a
  | look k => look fun w => (k (view w)).adapt view embed
  | call c k => call (embed c) fun ok => (k ok).adapt view embed

theorem Only.adapt {view : ω' → ω} {embed : κ → κ'} {P : κ → Prop} {P' : κ' → Prop}
    {p : Script ω κ α} (hp : p.Only P) (h : ∀ c, P c → P' (embed c)) :
    (p.adapt view embed).Only P' := by
  induction p with
  | done a => exact trivial
  | look k ih => exact fun w => ih (view w) (hp (view w))
  | call c k ih => exact ⟨h c hp.1, fun ok => ih ok (hp.2 ok)⟩

section Rules

variable {M : Machine ω κ χ τ} {N : Machine ω' κ' χ' σ} {part : Component σ τ} {view : ω' → ω}
  {embed : κ → κ'} {choice : χ' → χ} {F : κ → χ → Prop} {F' : κ' → χ' → Prop}

/-- **What a script does on its own part it does in the whole.** -/
theorem wpUntil_adapt (hembeds : M.Embeds N part view embed choice)
    (hfatal : ∀ c x, F c (choice x) → F' (embed c) x) {I : τ → Prop} {Q : α → τ → Prop}
    {p : Script ω κ α} {s : σ} (h : wpUntil M F I p Q (part.get s)) :
    wpUntil N F' (fun t => ∃ a, I a ∧ t = part.put a s) (p.adapt view embed)
      (fun v t => ∃ a, Q v a ∧ t = part.put a s) s := by
  -- the part changes along the way, the rest does not
  have hpart : ∀ (p : Script ω κ α) (a : τ), wpUntil M F I p Q a →
      wpUntil N F' (fun t => ∃ a, I a ∧ t = part.put a s) (p.adapt view embed)
        (fun v t => ∃ a, Q v a ∧ t = part.put a s) (part.put a s) := by
    intro p
    induction p with
    | done v => exact fun a ha => ⟨a, ha, rfl⟩
    | look k ih =>
      intro a ha
      have hview : view (N.obs (part.put a s)) = M.obs a := by
        rw [hembeds.obs, part.get_put]
      rw [adapt, wpUntil_look, hview]
      exact ih _ a ha
    | call c k ih =>
      intro a ha x
      rw [hembeds.perform, part.get_put, part.put_put]
      obtain ⟨hafter, hrest⟩ := ha (choice x)
      exact ⟨⟨_, hafter, rfl⟩, fun hx => ih _ _ (hrest fun hfatal' => hx (hfatal c x hfatal'))⟩
  have hstart := hpart p (part.get s) h
  rwa [part.put_get] at hstart

/-- **A script whose commands can only go one way** unless they are fatal. -/
theorem wpUntil_eval {z : χ} {P : κ → Prop} {p : Script ω κ α} {s : τ} (hp : p.Only P)
    (hsure : ∀ c x t, P c → ¬F c x → M.perform c x t = M.perform c z t) :
    wpUntil M F (fun _ => True) p (fun v t => v = (p.eval M z s).1 ∧ t = (p.eval M z s).2) s := by
  induction p generalizing s with
  | done a => exact ⟨rfl, rfl⟩
  | look k ih => exact ih (M.obs s) (hp _)
  | call c k ih =>
    intro x
    refine ⟨trivial, fun hx => ?_⟩
    rw [hsure c x s hp.1 hx]
    exact ih _ (hp.2 _)

end Rules

/-- Two machines that go the same way under a choice of theirs. -/
theorem eval_congr {M : Machine ω κ χ τ} {N : Machine ω κ χ' τ} {x : χ} {y : χ'}
    (hobs : ∀ s, M.obs s = N.obs s) (hperform : ∀ c s, M.perform c x s = N.perform c y s)
    (p : Script ω κ α) (s : τ) : p.eval M x s = p.eval N y s := by
  induction p generalizing s with
  | done a => rfl
  | look k ih =>
    rw [eval, eval, hobs]
    exact ih _ s
  | call c k ih =>
    rw [eval, eval, hperform]
    exact ih _ _

end Script
