import EzOpenPN.Lib.Bits
import EzOpenPN.Profiles.Service

/-!
# The runtime identifiers that are generated, and the checks they meet

The identifier of a profile is made in one place and checked in three: the Xray client and
the Hysteria2 client each match it against a pattern of their own before they send it, and
the database checks its length. A value that one of them refused would make the creation of a
profile fail for a few random values and for no visible reason.

None is refused, whatever the seventeen bytes. What the identifier keeps of them is the first
hundred and thirty bits, twenty-six digits of five: sixteen bytes and the two highest bits of
the last one. `EzOpenPN.runtimeId_fits` states both.
-/

namespace EzOpenPN

open Prog

/-! ### The three checks -/

/-- `_runtime_id` of the Xray client. -/
def xrayRuntimeId (value : String) : Except PyError String :=
  if matchesRuntimeId value then .ok value
  else .error ⟨.invalidRuntimeIdentifier, "runtime identifier is invalid"⟩

/-- `_runtime_id` of the Hysteria2 client. -/
def hysteriaRuntimeId (value : String) : Except PyError String :=
  if matchesRuntimeId value then .ok value
  else .error ⟨.invalidHysteriaRuntimeIdentifier, "runtime identifier is invalid"⟩

/-- `length` of SQLite on a text: the characters in front of the first NUL. -/
def sqliteLength (value : String) : ℕ := (value.toList.takeWhile (· ≠ '\x00')).length

/-- `ck_profiles_runtime_id_length`. -/
def ckProfilesRuntimeIdLength (value : String) : Bool := sqliteLength value == 28

/-- The Xray client checks an identifier before it adds a user under it. -/
theorem addUser_eq (env : Env) (runtimeId : String) (userId : Uuid) :
    addUser env runtimeId userId = (do
      let email ← ofExcept (xrayRuntimeId runtimeId)
      runtimeCall env (.addUser email userId) rpcError (addUserEffect env email userId)) := by
  rw [addUser, xrayRuntimeId]
  split <;> rfl

/-- The Hysteria2 client checks an identifier before it disconnects it. -/
theorem kick_eq (env : Env) (runtimeId : String) :
    kick env runtimeId = (do
      let value ← ofExcept (hysteriaRuntimeId runtimeId)
      runtimeCall env (.kick value)
        (fun _ => ⟨.hysteriaRuntimeUnavailable, "Hysteria2 runtime unavailable"⟩) some) := by
  rw [kick, hysteriaRuntimeId]
  split <;> rfl

/-! ### What passes the pattern passes the length check -/

theorem ne_nul_of_isRuntimeChar {c : Char} (h : isRuntimeChar c = true) : c ≠ '\x00' := by
  rintro rfl
  exact absurd h (by decide)

/-- **The pattern of the clients implies the length check of the database.** -/
theorem ckProfilesRuntimeIdLength_of_matches {value : String}
    (h : matchesRuntimeId value = true) : ckProfilesRuntimeIdLength value = true := by
  rw [matchesRuntimeId] at h
  split at h
  · rename_i rest htext
    simp only [Bool.and_eq_true, beq_iff_eq, List.all_eq_true] at h
    have hrest : rest.takeWhile (· ≠ '\x00') = rest :=
      List.takeWhile_eq_self_iff.mpr fun c hc =>
        decide_eq_true (ne_nul_of_isRuntimeChar (h.2 c hc))
    have hlen : sqliteLength value = 28 := by
      rw [sqliteLength, htext, List.takeWhile_cons_of_pos (by decide),
        List.takeWhile_cons_of_pos (by decide), hrest, List.length_cons, List.length_cons, h.1]
    rw [ckProfilesRuntimeIdLength, hlen, beq_self_eq_true]
  · exact absurd h (by simp)

/-! ### What an identifier keeps of its bytes -/

/-- The character of a digit in an identifier. -/
def runtimeDigit (n : ℕ) : Char := (BaseN.b32Char n).toLower

theorem runtimeDigit_injOn : ∀ m < 2 ^ 5, ∀ n < 2 ^ 5, runtimeDigit m = runtimeDigit n → m = n := by
  decide +kernel

/-- An identifier is `p_` and the first twenty-six digits. -/
theorem runtimeIdText_eq (value : Bytes) : runtimeIdText value =
    "p_" ++ String.ofList (((BaseN.b32Digits value).take 26).map runtimeDigit) := by
  rw [runtimeIdText, BaseN.stripPad_b32encode, List.map_map, ← List.map_take]
  rfl

/-- Two identifiers are the same exactly when their digits are. -/
theorem runtimeIdText_eq_iff (x y : Bytes) : runtimeIdText x = runtimeIdText y ↔
    (BaseN.b32Digits x).take 26 = (BaseN.b32Digits y).take 26 := by
  rw [runtimeIdText_eq, runtimeIdText_eq]
  refine ⟨fun h => ?_, fun h => by rw [h]⟩
  have hmap := String.ofList_injective (String.append_right_inj "p_" |>.mp h)
  have hlen := congrArg List.length hmap
  have hlt : ∀ z : Bytes, ∀ n ∈ (BaseN.b32Digits z).take 26, n < 2 ^ 5 := fun z n hn =>
    BaseN.lt_of_mem_b32Digits (List.mem_of_mem_take hn)
  rw [List.length_map, List.length_map] at hlen
  rw [List.map_eq_flatMap, List.map_eq_flatMap] at hmap
  exact BaseN.flatMap_injOn (w := 1) (P := fun n => n < 2 ^ 5) (fun _ => rfl)
    (fun m n hm hn h => runtimeDigit_injOn m hm n hn (List.singleton_injective h))
    hlen (hlt x) (hlt y) hmap

/-- **The generated identifiers fit every consumer.** Those of seventeen bytes pass the pattern
of both clients and the length check of the database, and two of them are the same exactly when
the first hundred and thirty bits of the bytes are. -/
theorem runtimeId_fits {value other : Bytes} (h : value.length = 17) (h' : other.length = 17) :
    xrayRuntimeId (runtimeIdText value) = .ok (runtimeIdText value) ∧
      hysteriaRuntimeId (runtimeIdText value) = .ok (runtimeIdText value) ∧
      ckProfilesRuntimeIdLength (runtimeIdText value) = true ∧
      (runtimeIdText value = runtimeIdText other ↔
        (BaseN.bits value).take 130 = (BaseN.bits other).take 130) := by
  have hm := matchesRuntimeId_runtimeIdText h
  refine ⟨?_, ?_, ckProfilesRuntimeIdLength_of_matches hm, ?_⟩
  · rw [xrayRuntimeId, if_pos hm]
  · rw [hysteriaRuntimeId, if_pos hm]
  · rw [runtimeIdText_eq_iff]
    exact BaseN.take_b32Digits_eq_iff (k := 26) (by omega) (by omega)

/-- Seventeen zero bytes, and the same with the six lowest bits of the last one set: one
identifier for both. -/
theorem runtimeId_fits_zeros :
    xrayRuntimeId (runtimeIdText (List.replicate 17 0)) =
        .ok (runtimeIdText (List.replicate 17 0)) ∧
      hysteriaRuntimeId (runtimeIdText (List.replicate 17 0)) =
        .ok (runtimeIdText (List.replicate 17 0)) ∧
      ckProfilesRuntimeIdLength (runtimeIdText (List.replicate 17 0)) = true ∧
      runtimeIdText (List.replicate 17 0) = runtimeIdText (List.replicate 16 0 ++ [63]) := by
  have hzeros : (List.replicate 17 0 : Bytes).length = 17 := by decide
  have hother : (List.replicate 16 0 ++ [63] : Bytes).length = 17 := by decide
  obtain ⟨hxray, hhysteria, hlength, hsame⟩ := runtimeId_fits hzeros hother
  exact ⟨hxray, hhysteria, hlength, hsame.mpr (by decide)⟩

end EzOpenPN
