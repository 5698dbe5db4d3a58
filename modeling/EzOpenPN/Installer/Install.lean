import EzOpenPN.Installer.Firewall
import EzOpenPN.Installer.Layout
import EzOpenPN.Installer.Upgrade
import EzOpenPN.Lib.Component

/-!
# The installer

`installer_main` of `install.sh`, from its first check to its last file, together with what it calls:
the layout and the runtime material of `configure.sh`, the checkpoints of `state.sh`, the first
administrator of `credentials.sh`, Docker, the firewall, and the update it turns into once
`install.json` is there.

A `EzOpenPN.Install.Site` is the host of an upgrade with everything else that an installation makes. The
layout, the firewall and the upgrades have models of their own, which are used here as they are: a
script of one of them is run on its part of the site. Docker has one in this file.

**Three files are created exclusively by way of a temporary file with a fixed name**, and nothing
ever removes one that a crash has left: `current.json.tmp`, `stack.env.tmp` and `install.json.tmp`.
Temporary files and directories with a name of their own are left out, as is what only other programs
read (the laboratory certificate, modes and owners of what is not in the layout). The random values
of the runtime material are those of `rel`: they are drawn once, because a finished directory is never
made again.
-/

namespace EzOpenPN.Install

open FileSystem Script Upgrade

/-! ### Phases -/

/-- `_INSTALL_PHASES`. -/
inductive InstallPhase where
  | preflight
  | bundleVerified
  | dockerReady
  | firewallReady
  | layoutReady
  | gatewayStarted
  | certificateReady
  | controlMigrated
  | adminCreated
  | runtimesReady
  | externalChecksPassed
  | installComplete
  deriving DecidableEq

namespace InstallPhase

/-- The phases in their order. -/
def all : List InstallPhase :=
  [preflight, bundleVerified, dockerReady, firewallReady, layoutReady, gatewayStarted,
    certificateReady, controlMigrated, adminCreated, runtimesReady, externalChecksPassed,
    installComplete]

/-- `_install_phase_rank`. -/
def rank (phase : InstallPhase) : ℕ := all.idxOf phase

end InstallPhase

/-- `_install_resumed_at_or_after`, with `INSTALL_RESUME_PHASE`. -/
def resumedAtOrAfter (resume : Option InstallPhase) (wanted : InstallPhase) : Bool :=
  resume.any fun phase => decide (wanted.rank ≤ phase.rank)

/-! ### What an installer works with -/

/-- **A login**: a line that the control program accepts. A terminal ends a line at a carriage
return. -/
structure Login where
  text : List Char
  filled : text ≠ []
  line : '\n' ∉ text ∧ '\r' ∉ text

/-- `install.json`, without the version: that is the one of the host. -/
structure InstallState where
  adminLogin : List Char
  laboratoryMode : Bool
  publicIpv4 : List Char

/-- **What the installer is started with**: the bundle with its images, the laboratory files, the
address of the server, and how the programs it calls print and store things. -/
structure Setting (rel : Version → Release) where
  version : Version
  laboratory : Bool
  publicIpv4 : List Char
  /-- The `Caddyfile` that is rendered, before a laboratory puts its own in the place. -/
  gateway : Bytes
  gateway_eq : laboratory = false → gateway = (rel version).config .caddyfile
  listing : UfwListing
  /-- The login as the control program stores it. -/
  normalizeLogin : Login → Login

/-! ### Docker -/

/-- What `docker.sh` makes on a host. -/
structure DockerHost where
  /-- The packages are installed, and the engine answers. -/
  engine : Bool
  running : Bool
  key : Bool
  sources : Bool
  sourcesTmp : Bool
  resources : Bool
  deriving DecidableEq

/-- **The commands** of `docker.sh`. -/
inductive DockerCommand where
  /-- The three questions of `_docker_is_ready`. -/
  | ready
  | readRelease
  | aptUpdate
  | aptPrerequisites
  | makeDirectories
  | fetchKey
  | checkKey
  | removeKey
  | protectKey
  | writeSources
  | protectSources
  | moveSources
  | removeConflicts
  | aptDocker
  | enableDocker
  | makeRecordDirectory
  | protectRecordDirectory
  | writeResources
  | protectResources
  deriving DecidableEq

/-- A command that does all or nothing. -/
def act {α : Type} (o : Outcome) (after before : α) : Bool × α :=
  (o.status, if o.took then after else before)

namespace DockerCommand

/-- The commands that are other programs. -/
def external : DockerCommand → Bool
  | ready | readRelease | aptUpdate | aptPrerequisites | fetchKey | checkKey | removeConflicts
  | aptDocker | enableDocker => true
  | _ => false

/-- **What a command does.** One that needs a file, or the packages, fails without them. -/
def effect (c : DockerCommand) (o : Outcome) (d : DockerHost) : Bool × DockerHost :=
  match c with
  | ready => (o.status && d.engine && d.running, d)
  | readRelease | aptUpdate | aptPrerequisites | makeDirectories | removeConflicts
  | makeRecordDirectory | protectRecordDirectory => (o.status, d)
  | fetchKey => act o { d with key := true } d
  | checkKey | protectKey => (o.status && d.key, d)
  | removeKey => act o { d with key := false } d
  | writeSources => act o { d with sourcesTmp := true } d
  | protectSources => (o.status && d.sourcesTmp, d)
  | moveSources =>
    if d.sourcesTmp then act o { d with sources := true, sourcesTmp := false } d else (false, d)
  | aptDocker => if d.sources then act o { d with engine := true } d else (false, d)
  | enableDocker => if d.engine then act o { d with running := true } d else (false, d)
  | writeResources => act o { d with resources := true } d
  | protectResources => (o.status && d.resources, d)

end DockerCommand

/-- **Docker as a machine.** -/
def dockerMachine : Machine DockerHost DockerCommand Outcome DockerHost where
  obs := id
  perform c o d := c.effect o d

/-- Commands one after the other, whose statuses are dropped. -/
def runAll {ω κ : Type} : List κ → Script ω κ Unit
  | [] => done ()
  | c :: rest => (run c).bind fun _ => runAll rest

/-- `_docker_is_ready`. -/
def dockerIsReady : Script DockerHost DockerCommand Bool := run .ready

/-- `_record_docker_resources`. -/
def recordDockerResources : Script DockerHost DockerCommand Unit :=
  runAll [.makeRecordDirectory, .protectRecordDirectory, .writeResources, .protectResources]

/-- **`ensure_docker_engine`**: nobody looks at the statuses of what it installs, only at the key
and, at the end, at the engine. -/
def ensureDockerEngine : Script DockerHost DockerCommand Bool :=
  dockerIsReady.bind fun ready =>
    if ready then done true
    else
      (run .readRelease).bind fun known =>
        if known then
          (runAll [.aptUpdate, .aptPrerequisites, .makeDirectories, .fetchKey]).bind fun _ =>
          (run .checkKey).bind fun right =>
            if right then
              (runAll [.protectKey, .writeSources, .protectSources, .moveSources,
                .removeConflicts, .aptUpdate, .aptDocker, .enableDocker]).bind fun _ =>
              recordDockerResources.bind fun _ => dockerIsReady
            else (run .removeKey).bind fun _ => done false
        else done false

/-! ### The site -/

/-- The files that are created exclusively: `current.json.tmp`, `stack.env.tmp` and
`install.json.tmp`. -/
inductive InstallFile where
  | checkpoint
  | stackEnv
  | state
  deriving DecidableEq

/-- What such a file is replaced with. -/
inductive InstallContent where
  | checkpoint (phase : InstallPhase)
  | stackEnv (content : Bytes)
  | state (version : Version) (state : InstallState)

/-- The file of a content. -/
def InstallContent.file : InstallContent → InstallFile
  | .checkpoint _ => .checkpoint
  | .stackEnv _ => .stackEnv
  | .state _ _ => .state

/-- **A site**: the host, and what an installation makes on it. -/
structure Site where
  /-- What the upgrades read and write. The checkpoint of an installation is
  `EzOpenPN.Upgrade.Checkpoint.other` there, `current.json.tmp` is one of its temporary files, and
  the version in it is the one of `install.json`. -/
  host : Host
  /-- `install.json`. -/
  state : Option InstallState
  stateTmp : Bool
  /-- The phase in the checkpoint of an installation. -/
  phase : InstallPhase
  /-- A configuration file is there. -/
  configured : ConfigFile → Bool
  stackTmp : Bool
  layout : Layout
  /-- The directory with the runtime material is there. -/
  material : Bool
  firewall : FirewallHost
  docker : DockerHost
  /-- The administrator in the database. -/
  admin : Option Login
  /-- `admin-login`, and the file it is written to first. -/
  adminLogin : Option (List Char)
  adminLoginTmp : Option (List Char)

namespace Site

variable (s : Site)

/-- A site is made of its parts. -/
theorem eta : { s with host := s.host } = s := rfl

/-- A temporary file is there. -/
def tmp : InstallFile → Bool
  | .checkpoint => s.host.tmp .checkpoint
  | .stackEnv => s.stackTmp
  | .state => s.stateTmp

/-- Create or remove a temporary file. -/
def setTmp (file : InstallFile) (there : Bool) : Site :=
  match file with
  | .checkpoint => { s with host := s.host.setTmp .checkpoint there }
  | .stackEnv => { s with stackTmp := there }
  | .state => { s with stateTmp := there }

/-- A configuration file is written. -/
def setConfig (f : ConfigFile) (content : Bytes) : Site :=
  { s with host := s.host.setConfig f content, configured := Function.update s.configured f true }

/-- A file is replaced. -/
def put : InstallContent → Site
  | .checkpoint phase => { s with host := { s.host with checkpoint := some .other }, phase := phase }
  | .stackEnv content => s.setConfig .stackEnv content
  | .state version state =>
    { s with host := { s.host with version := version }, state := some state }

end Site

/-! ### The commands -/

/-- The services of the stack. -/
inductive Service where
  | gateway
  | certSync
  | control
  | xray
  | hysteria
  deriving DecidableEq

/-- Other programs, and questions to the operator, of which only the answer matters. -/
inductive Program where
  | requireRoot
  | requireTty
  | acquireLock
  | laboratoryPair
  | verifyBundle
  | xrayKey
  | composeUp (services : List Service)
  | composeRestart (service : Service)
  | composeDown
  | serviceHealthy (service : Service)
  | panelTls
  | collectCredentials
  | enableUnit
  | disableUnit
  | externalChecks
  deriving DecidableEq

/-- **The commands of the installer.** -/
inductive SiteCmd where
  | host (c : Cmd)
  | layout (c : LayoutCommand)
  | firewall (c : FirewallCommand)
  | docker (c : DockerCommand)
  | program (p : Program)
  /-- `mkdir -p`. -/
  | makeDirectory (path : LayoutPath)
  /-- Create a temporary file exclusively. -/
  | create (file : InstallFile)
  | write (file : InstallFile)
  | replace (content : InstallContent)
  /-- Remove a temporary file that may be missing. -/
  | discard (file : InstallFile)
  /-- The program that puts the runtime material together. -/
  | composeMaterial
  | moveMaterial
  /-- Replace a configuration file by way of a temporary file with a name of its own. -/
  | render (file : ConfigFile) (content : Bytes)
  | protect (file : ConfigFile)
  | own (file : ConfigFile)
  /-- The certificate and the key of a laboratory, and their owners. -/
  | copyLaboratory
  /-- The `Caddyfile` of a laboratory. -/
  | copyGateway (content : Bytes)
  | makeToolDirectories
  | initAdmin (login : Login)
  | writeLogin (text : List Char)
  | protectLogin
  | moveLogin
  | protectState
  | removeLogin

/-- `/var/lib/ezopenpn/operations`. -/
def operationsPath : LayoutPath := ["var", "lib", "ezopenpn", "operations"]

/-- `/var/lib/ezopenpn`. -/
def statePath : LayoutPath := ["var", "lib", "ezopenpn"]

/-- The three secrets. -/
def secretPaths : List LayoutPath := firstSecrets ++ [lastSecret]

/-- `read_secret`: a private file of 32 bytes. -/
def Readable : Option LayoutEntry → Prop
  | some (.file size mode _) => size = 32 ∧ mode = 0o600
  | _ => False

instance : DecidablePred Readable := fun e =>
  match e with
  | some (.file size mode _) => inferInstanceAs (Decidable (size = 32 ∧ mode = 0o600))
  | none | some (.directory _ _) | some (.link _) | some .other => isFalse id

/-- The directories that `mkdir -p` makes. -/
def makeAll (s : Layout) (p : LayoutPath) : Layout where
  entry q := if q ∈ p.inits ∧ s.entry q = none then some (s.newDirectory q 0o700) else s.entry q

/-- How a command of the layout goes. -/
def layoutOutcome : Outcome → CallOutcome
  | .ok => .ok
  | .failed | .late => .failed
  | .torn left _ => .torn (left.getD []).length

/-- **What a command of the firewall does.** The shell creates the record before `printf` writes
its line. -/
def firewallEffect (c : FirewallCommand) (o : Outcome) (h : FirewallHost) : Bool × FirewallHost :=
  match c, o with
  | .appendRecord _, .torn _ _ => (false, { h with record := some (h.record.getD []) })
  | c, o => act o (c.effect h) h

/-- What another program does to the host: it starts or stops the stack. -/
def Program.effect (p : Program) (o : Outcome) (h : Host) : Host :=
  match p with
  | composeUp services =>
    if o ≠ .failed ∧ .control ∈ services then { h with running := true } else h
  | composeRestart service => if o ≠ .failed ∧ service = .control then { h with running := true } else h
  | composeDown | disableUnit => if o.took then { h with running := false } else h
  | _ => h

section Effect

variable {rel : Version → Release} (B : Setting rel)

/-- **What a command does.** -/
def SiteCmd.effect (c : SiteCmd) (x : Choice) (s : Site) : Bool × Site :=
  let o := x.outcome
  match c with
  | .host c =>
    (((hostMachine rel).perform c x s.host).1,
      { s with host := ((hostMachine rel).perform c x s.host).2 })
  | .layout c =>
    ((c.effect s.layout (layoutOutcome o)).1,
      { s with layout := (c.effect s.layout (layoutOutcome o)).2 })
  | .firewall c =>
    ((firewallEffect c o s.firewall).1, { s with firewall := (firewallEffect c o s.firewall).2 })
  | .docker c => ((c.effect o s.docker).1, { s with docker := (c.effect o s.docker).2 })
  | .program p => (o.status, { s with host := p.effect o s.host })
  | .makeDirectory p =>
    if s.layout.Walkable p ∧ ¬Blocks (s.layout.entry p) then
      act o { s with layout := makeAll s.layout p } s
    else (false, s)
  | .create f => if s.tmp f then (false, s) else act o (s.setTmp f true) s
  | .write f => (o.status && s.tmp f, s)
  | .replace content =>
    if s.tmp content.file then act o ((s.put content).setTmp content.file false) s else (false, s)
  | .discard f => act o (s.setTmp f false) s
  | .composeMaterial =>
    (o.status && decide (∀ p ∈ secretPaths, Readable (s.layout.entry p)), s)
  | .moveMaterial => act o { s with material := true } s
  | .render f content => act o (s.setConfig f content) s
  | .protect f | .own f => (o.status && s.configured f, s)
  | .copyLaboratory | .makeToolDirectories => (o.status, s)
  | .copyGateway content =>
    (o.status, { s with
      host := s.host.setConfig .caddyfile
        ((o.leaves (some content) (some (s.host.config .caddyfile))).getD []) })
  | .initAdmin login =>
    if s.admin.isSome then (false, s)
    else act o { s with admin := some (B.normalizeLogin login) } s
  | .writeLogin text =>
    (o.status, { s with adminLoginTmp := match o with
      | .ok | .late => some text
      | .failed => s.adminLoginTmp
      | .torn left _ => left.map fun bytes => bytes.map fun b => Char.ofNat b.toNat })
  | .protectLogin => (o.status && s.adminLoginTmp.isSome, s)
  | .moveLogin =>
    if s.adminLoginTmp.isSome then
      act o { s with adminLogin := s.adminLoginTmp, adminLoginTmp := none } s
    else (false, s)
  | .protectState => (o.status && s.state.isSome, s)
  | .removeLogin => act o { s with adminLogin := none } s

/-- **The site as a machine.** -/
def siteMachine : Machine Site SiteCmd Choice Site where
  obs := id
  perform c x s := c.effect B x s

end Effect

/-! ### Files -/

/-- A script of the installer. -/
abbrev InstallScript := Script Site SiteCmd

/-- A script of `upgrade.sh`, on the host of a site. -/
def onHost {α : Type} (p : Shell α) : InstallScript α := p.adapt Site.host .host

/-- A script for the layout. -/
def onLayout {α : Type} (p : LayoutScript α) : InstallScript α := p.adapt Site.layout .layout

/-- A script of `firewall.sh`. -/
def onFirewall {α : Type} (p : FirewallScript α) : InstallScript α :=
  p.adapt Site.firewall .firewall

/-- A script of `docker.sh`. -/
def onDocker {α : Type} (p : Script DockerHost DockerCommand α) : InstallScript α :=
  p.adapt Site.docker .docker

/-- Replace a file by way of its temporary file, which must not exist yet. -/
def replaceFile (content : InstallContent) : InstallScript Bool :=
  (run (.create content.file)).bind fun created =>
    if created then
      (all [run (.write content.file), run (.replace content)]).bind fun ok =>
        -- the `finally` of the program
        (run (.discard content.file)).bind fun discarded => done (ok && discarded)
    else done false

/-- `_install_record_phase`, and in it `write_operation_checkpoint install`. -/
def recordPhase (phase : InstallPhase) : InstallScript Bool :=
  (run (.makeDirectory operationsPath)).bind fun _ =>
  (run (.layout (.chmod operationsPath 0o700))).bind fun _ =>
  replaceFile (.checkpoint phase)

/-- `_install_resume_phase`: the phase of a checkpoint, if it is one of an installation. -/
def Site.resumePhase (s : Site) : Option InstallPhase :=
  match s.host.checkpoint with
  | some .other => some s.phase
  | _ => none

/-! ### Before the layout -/

section Script

variable {rel : Version → Release} (B : Setting rel)

/-- What `run_preflight` makes of a checkpoint, before all that it asks of the host. -/
def runPreflight (allowInterrupted : Bool) : InstallScript Bool :=
  look fun s =>
    if s.state.isNone && s.host.checkpoint.isSome && !allowInterrupted then done false
    else run (.host .preflight)

/-- `_validate_laboratory_pair`. -/
def validateLaboratoryPair : InstallScript Bool :=
  if B.laboratory then run (.program .laboratoryPair) else done true

/-- The errors of an installation, by the part that fails. -/
inductive InstallError where
  | root
  | tty
  | locked
  | checkpoint
  | preflight
  | laboratory
  | record
  | bundle
  | docker
  | firewall
  | layout
  | gateway
  | certificate
  | migration
  | admin
  | runtimes
  | systemd
  | checks
  | state
  | login
  | update (error : UpgradeError)
  deriving DecidableEq

/-- The first steps of `_run_production_install`. -/
def beforeLayout (resume : Option InstallPhase) : InstallScript (Option InstallError) :=
  firstFailure
    [(.preflight, runPreflight resume.isSome), (.laboratory, validateLaboratoryPair B),
      (.record, recordPhase .preflight), (.bundle, run (.program .verifyBundle)),
      (.record, recordPhase .bundleVerified), (.docker, onDocker ensureDockerEngine),
      (.record, recordPhase .dockerReady), (.firewall, onFirewall (applyFirewallRules B.listing)),
      (.record, recordPhase .firewallReady)]

/-! ### The layout -/

/-- `_install_release_files`, with `INSTALL_PREVIOUS_CURRENT`. -/
def installReleaseFiles : InstallScript (Bool × Option Version) :=
  look fun s => (onHost (Upgrade.installReleaseFiles B.version)).bind fun ok =>
    done (ok, s.host.current)

/-- `_validate_runtime_material`: a directory that is there was finished before it was moved. -/
def validateRuntimeMaterial : InstallScript Bool := look fun s => done s.material

/-- `configure_runtime_material`. -/
def configureRuntimeMaterial : InstallScript Bool :=
  look fun s =>
    if s.material then validateRuntimeMaterial
    else all [run (.program .xrayKey), run .composeMaterial, run .moveMaterial,
      validateRuntimeMaterial]

/-- The configuration as it is rendered. -/
def rendered (f : ConfigFile) : Bytes := if f = .caddyfile then B.gateway else (rel B.version).config f

/-- `render_server_configuration`: its status is that of the last `chown`. -/
def renderServerConfiguration : InstallScript Bool :=
  look fun s =>
    if (s.host.releases B.version).isSome && s.material then
      (all [run (.render .controlToml (rendered B .controlToml)),
        run (.render .caddyfile (rendered B .caddyfile)),
        run (.render .composeYaml (rendered B .composeYaml)),
        run (.render .xrayConfig (rendered B .xrayConfig)),
        run (.render .hysteriaConfig (rendered B .hysteriaConfig))]).bind fun ok =>
          if ok then
            (runAll [.own .controlToml, .own .caddyfile, .own .composeYaml,
              .own .xrayConfig]).bind fun _ => run (.own .hysteriaConfig)
          else done false
    else done false

/-- `_install_stack_environment`: nobody looks at the status of the program that writes the file. -/
def installStackEnvironment : InstallScript Bool :=
  (replaceFile (.stackEnv (rendered B .stackEnv))).bind fun _ =>
  (run (.protect .stackEnv)).bind fun _ => run (.own .stackEnv)

/-- `_install_laboratory_certificate`. -/
def installLaboratoryCertificate : InstallScript Bool :=
  if B.laboratory then
    (run .copyLaboratory).bind fun _ =>
    (run (.copyGateway ((rel B.version).config .caddyfile))).bind fun _ => run (.own .caddyfile)
  else done true

/-- `_prepare_installed_layout`, with `INSTALL_PREVIOUS_CURRENT` as far as it was set. -/
def prepareInstalledLayout : InstallScript (Bool × Option Version) :=
  (onLayout configureLayout).bind fun status =>
    if status = .success then
      (installReleaseFiles B).bind fun installed =>
        if installed.1 then
          (all [configureRuntimeMaterial, renderServerConfiguration B, installStackEnvironment B,
            installLaboratoryCertificate B, run (.host .pull)]).bind fun ok =>
              done (ok, installed.2)
        else done installed
    else done (false, none)

/-! ### The stack -/

/-- `_wait_service_healthy`. -/
def waitServiceHealthy (service : Service) : InstallScript Bool :=
  run (.program (.serviceHealthy service))

/-- `_start_gateway_and_exporter`. -/
def startGatewayAndExporter : InstallScript Bool :=
  all [run (.program (.composeUp [.gateway, .certSync])), waitServiceHealthy .gateway]

/-- `_wait_certificate_ready`. -/
def waitCertificateReady : InstallScript Bool :=
  all [waitServiceHealthy .certSync, run (.program .panelTls)]

/-- `_migrate_control`. -/
def migrateControl : InstallScript Bool :=
  all [run (.program (.composeUp [.control])), waitServiceHealthy .control,
    run (.host (.migrate B.version))]

/-- `_record_operation_admin_login`. -/
def recordOperationAdminLogin (login : List Char) : InstallScript Bool :=
  if login = [] ∨ '\n' ∈ login ∨ '\r' ∈ login then done false
  else (runAll [.writeLogin login, .protectLogin]).bind fun _ => run .moveLogin

/-- `initialize_admin_from_tty`. -/
def initializeAdminFromTty (login : Login) : InstallScript Bool :=
  all [run (.program .collectCredentials), run (.initAdmin login)]

/-- **`_create_or_recover_admin`**, with `INSTALL_ADMIN_LOGIN` if it succeeds. -/
def createOrRecoverAdmin (resume : Option InstallPhase) (login : Login) :
    InstallScript (Option (List Char)) :=
  look fun s =>
    match s.admin with
    | some current =>
      (recordOperationAdminLogin current.text).bind fun _ => done (some current.text)
    | none =>
      if resumedAtOrAfter resume .adminCreated then done none
      else
        (initializeAdminFromTty login).bind fun ok =>
          if ok then
            (recordOperationAdminLogin login.text).bind fun ok =>
              done (if ok then some login.text else none)
          else done none

/-- `_start_runtimes`. -/
def startRuntimes : InstallScript Bool :=
  all [run (.program (.composeUp [.xray])), waitServiceHealthy .xray,
    run (.program (.composeUp [.hysteria])), waitServiceHealthy .hysteria,
    run (.program (.composeRestart .control)), waitServiceHealthy .control]

/-- `_install_systemd_and_cli`: its status is that of `systemctl start`. -/
def installSystemdAndCli : InstallScript Bool :=
  (runAll [.makeToolDirectories, .host (.installTool B.version .unit),
    .host (.installTool B.version .cli), .host .daemonReload,
    .program .enableUnit]).bind fun _ => run (.host (.service .start))

/-- `_install_write_complete_state`. -/
def installWriteCompleteState (adminLogin : List Char) : InstallScript Bool :=
  (run (.makeDirectory statePath)).bind fun _ =>
  all [replaceFile (.state B.version ⟨adminLogin, B.laboratory, B.publicIpv4⟩), run .protectState]

/-- The steps of `_run_production_install` up to the first administrator. -/
def beforeAdmin : InstallScript (Option InstallError) :=
  firstFailure
    [(.record, recordPhase .layoutReady), (.gateway, startGatewayAndExporter),
      (.record, recordPhase .gatewayStarted), (.certificate, waitCertificateReady),
      (.record, recordPhase .certificateReady), (.migration, migrateControl B),
      (.record, recordPhase .controlMigrated)]

/-- The steps from there on. Nobody looks at the status of `clear_operation_checkpoint`; that of the
last `rm` is the status of the whole. -/
def afterAdmin (adminLogin : List Char) : InstallScript (Option InstallError) :=
  (firstFailure
    [(.record, recordPhase .adminCreated), (.runtimes, startRuntimes),
      (.record, recordPhase .runtimesReady), (.systemd, installSystemdAndCli B),
      (.checks, run (.program .externalChecks)), (.record, recordPhase .externalChecksPassed),
      (.record, recordPhase .installComplete),
      (.state, installWriteCompleteState B adminLogin)]).bind fun failure =>
    match failure with
    | some error => done (some error)
    | none =>
      (onHost clearOperationCheckpoint).bind fun _ =>
      (run .removeLogin).bind fun ok => done (if ok then none else some .login)

/-! ### The installation -/

/-- **`_run_production_install`**, with `INSTALL_PREVIOUS_CURRENT`. -/
def runProductionInstall (resume : Option InstallPhase) (login : Login) :
    InstallScript (Option InstallError × Option Version) :=
  (beforeLayout B resume).bind fun failure =>
    match failure with
    | some error => done (some error, none)
    | none =>
      (prepareInstalledLayout B).bind fun prepared =>
        if prepared.1 then
          (beforeAdmin B).bind fun failure =>
            match failure with
            | some error => done (some error, prepared.2)
            | none =>
              (createOrRecoverAdmin resume login).bind fun created =>
                match created with
                | none => done (some .admin, prepared.2)
                | some adminLogin =>
                  (afterAdmin B adminLogin).bind fun failure => done (failure, prepared.2)
        else done (some .layout, prepared.2)

/-- **`_rollback_production_install`.** -/
def rollbackProductionInstall (previous : Option Version) : InstallScript Unit :=
  (run (.program .disableUnit)).bind fun _ => look fun s =>
    (if s.configured .stackEnv && s.configured .composeYaml then run (.program .composeDown)
      else done true).bind fun _ =>
    (onFirewall rollbackFirewallRules).bind fun _ =>
      match previous with
      | none => done ()
      | some version => (run (.host (.switchCurrent version))).bind fun _ => done ()

/-- A fresh installation, or one that is resumed. -/
def freshInstall (login : Login) : InstallScript (Option InstallError) :=
  (run (.program .acquireLock)).bind fun locked =>
    if locked then
      look fun s =>
        if s.host.checkpoint.isSome && s.resumePhase.isNone then done (some .checkpoint)
        else
          (runProductionInstall B s.resumePhase login).bind fun result =>
            match result.1 with
            | none => done none
            | some error =>
              (rollbackProductionInstall result.2).bind fun _ => done (some error)
    else done (some .locked)

/-- **`installer_main`**, with what the operator types and the latest release of the channel: where
`install.json` is there, it is an update. -/
def installerMain (login : Login) (latest : Version) : InstallScript (Option InstallError) :=
  (firstFailure [(.root, run (.program .requireRoot)),
    (.tty, run (.program .requireTty))]).bind fun failure =>
    match failure with
    | some error => done (some error)
    | none =>
      look fun s =>
        if s.state.isSome then
          (onHost (upgradeRun .install latest)).bind fun error => done (error.map .update)
        else freshInstall B login

end Script

end EzOpenPN.Install
