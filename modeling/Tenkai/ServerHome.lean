import Mathlib.Logic.Function.Basic
import Mathlib.Tactic.Cases
import Tenkai.Machine
import Tenkai.Prog

/-!
# Self-upgrade of the server on one home

`server_self_upgrade.rs`: `current` and `previous` are links to staged versions, `upgrade.json`
records the last switch, and a switch first copies the store to a backup. The commands are programs
over these files; each operation may fail before or after it takes effect, and a command may be
killed between any two. A server start refuses a store with a newer schema than it supports and
otherwise migrates it. Of a store only the schema version is kept; `log` is an account of the
switches, the starts and what was done to the store.
-/

namespace Tenkai.ServerHome

/-- `Upgrade`: the record of the last switch. -/
structure Upgrade where
  «from» : Option String
  «to» : String
  backup : Option String
  schemaBefore : Nat
  confirmed : Bool
  reverted : Bool
  restoring : Bool
  restored : Bool
  deriving DecidableEq

/-- The record of a switch that was just made. -/
def Upgrade.fresh (record : Upgrade) : Bool :=
  !record.confirmed && !record.reverted && !record.restoring && !record.restored

structure Reverted where
  «to» : String
  restoredBackup : Bool
  deriving DecidableEq

/-- A switch, and the schema of the store it found. -/
structure Switch where
  «from» : Option String
  «to» : String
  store : Option Nat
  deriving DecidableEq

inductive Happening
  | switched (switch : Switch)
  | started (version : String)
  | overwritten
  | movedAside
  deriving DecidableEq

inductive Link
  | current
  | previous
  deriving DecidableEq

structure Home where
  current : Option String
  previous : Option String
  record : Option Upgrade
  staged : List String
  store : Option Nat
  backups : String → Option Nat
  /-- The stores at the paths `aside_path` gives. -/
  aside : String → Option Nat
  log : List Happening

def trimStartMatches (pattern text : List Char) : List Char :=
  go text.length text
    where
  go : Nat → List Char → List Char
    | 0, text => text
    | fuel + 1, text =>
      if pattern.isPrefixOf text then go fuel (text.drop pattern.length) else text

/-- The end of the path `aside_path` gives to the store of version `creator`. -/
def asideName (creator : String) : String :=
  ".created-by-" ++ String.ofList ((trimStartMatches "sha256:".toList creator.toList).take 12)

/-! ### The operations -/

inductive Op
  | isStaged (id : String)
  | readLink (link : Link)
  | point (link : Link) (id : String)
  | readRecord
  | writeRecord (record : Upgrade)
  | databaseExists
  | schemaVersion
  | createBackup (path : String)
  | backUpStore (path : String)
  | backupSchema (path : String)
  | restoreStore (path : String)
  | asideExists (creator : String)
  /-- The rename of one of the store's files by `set_aside`; the side files come first. -/
  | renameAside (suffix : String) (creator : String)
  deriving DecidableEq

abbrev Op.Answer : Op → Type
  | .isStaged _ | .databaseExists | .asideExists _ => Bool
  | .readLink _ => Option String
  | .readRecord => Option Upgrade
  | .schemaVersion | .backupSchema _ => Nat
  | .point _ _ | .writeRecord _ | .createBackup _ | .backUpStore _ | .restoreStore _
  | .renameAside _ _ => Unit

/-- An operation is answered, or fails before or after it takes effect. -/
abbrev interface : Interface where
  Op := Op
  Choice _ := Fault
  Reply op := Except String op.Answer

namespace Home

def link (h : Home) : Link → Option String
  | .current => h.current
  | .previous => h.previous

def point (h : Home) (id : String) : Link → Home
  | .current => { h with current := some id }
  | .previous => { h with previous := some id }

/-- The record is replaced; one of a switch just made is a switch. -/
def putRecord (h : Home) (record : Upgrade) : Home :=
  { h with
    record := some record
    log := if record.fresh then .switched ⟨record.from, record.to, h.store⟩ :: h.log else h.log }

/-- The store file itself is moved aside, if it is there. -/
def moveAside (h : Home) (creator : String) : Home :=
  match h.store with
  | none => h
  | some schema =>
    { h with
      store := none
      aside := Function.update h.aside (asideName creator) (some schema)
      log := .movedAside :: h.log }

end Home

def effect : (op : Op) → Home → Except String op.Answer × Home
  | .isStaged id, h => (.ok (decide (id ∈ h.staged)), h)
  | .readLink link, h => (.ok (h.link link), h)
  | .point link id, h => (.ok (), h.point id link)
  | .readRecord, h => (.ok h.record, h)
  | .writeRecord record, h => (.ok (), h.putRecord record)
  | .databaseExists, h => (.ok h.store.isSome, h)
  | .schemaVersion, h =>
    match h.store with
    | some schema => (.ok schema, h)
    | none => (.error "opening the store", h)
  | .createBackup path, h =>
    if (h.backups path).isSome then (.error ("creating " ++ path), h)
    else (.ok (), { h with backups := Function.update h.backups path (some 0) })
  | .backUpStore path, h =>
    match h.store with
    | some schema => (.ok (), { h with backups := Function.update h.backups path (some schema) })
    | none => (.error ("backing up the store to " ++ path), h)
  | .backupSchema path, h =>
    match h.backups path with
    | some schema => (.ok schema, h)
    | none => (.error ("opening " ++ path), h)
  | .restoreStore path, h =>
    match h.backups path with
    | some schema => (.ok (), { h with store := some schema, log := .overwritten :: h.log })
    | none => (.error ("restoring " ++ path), h)
  | .asideExists creator, h => (.ok (h.aside (asideName creator)).isSome, h)
  | .renameAside suffix creator, h =>
    (.ok (), if suffix = "" then h.moveAside creator else h)

def exec : Exec interface Home := fun op fault h =>
  fault.run "input/output error" h (effect op h)

abbrev M (α : Type) : Type := ExceptT String (Prog interface) α

def ask (op : Op) : M op.Answer := Prog.perform (I := interface) op

/-! ### The commands -/

def checkOpen (current : Option String) : Option Upgrade → M Unit
  | none => pure ()
  | some last => do
    Prog.bailIf (!last.confirmed && !last.reverted && !(last.from.isNone && current.isNone))
      ("the switch to " ++ last.to ++ " is not confirmed; confirm or roll it back first")
    Prog.bailIf
      (last.reverted ∧ (current ≠ last.from ∨ (last.restoring && !last.restored)))
      ("the rollback of " ++ last.to ++
        " has not finished; run self-upgrade rollback again first")

def backupPath (id : String) (nowMs : Int) : String :=
  "backups/" ++ toString nowMs ++ "-" ++ id ++ ".db"

/-- The backup a switch takes, and the schema it found. -/
def backUp (id : String) (nowMs : Int) : Bool → M (Option String × Nat)
  | false => pure (none, 0)
  | true => do
    let path := backupPath id nowMs
    ask (.createBackup path)
    ask (.backUpStore path)
    let schema : Nat ← ask (.backupSchema path)
    return (some path, schema)

def pointPrevious : Option String → M Unit
  | none => pure ()
  | some «from» => ask (.point .previous «from»)

def switch (id : String) (nowMs : Int) : M Upgrade := do
  let staged : Bool ← ask (.isStaged id)
  Prog.bailIf (staged = false) ("server version " ++ id ++ " is not staged")
  let «from» : Option String ← ask (.readLink .current)
  Prog.bailIf («from» = some id) ("server version " ++ id ++ " is already current")
  let last ← ask .readRecord
  checkOpen «from» last
  let stored : Bool ← ask .databaseExists
  let (backup, schemaBefore) ← backUp id nowMs stored
  let record : Upgrade := {
    «from»
    «to» := id
    backup
    schemaBefore
    confirmed := false
    reverted := false
    restoring := false
    restored := false }
  ask (.writeRecord record)
  pointPrevious «from»
  ask (.point .current id)
  return record

def context {α : Type} (error : String) : Option α → M α
  | some a => pure a
  | none => throw error

/-- The record of a switch that is confirmed already is left as it is. -/
def markConfirmed (record : Upgrade) : M Upgrade :=
  if record.confirmed then
    pure record
  else do
    ask (.writeRecord { record with confirmed := true })
    return { record with confirmed := true }

def confirm : M Upgrade := do
  let last ← ask .readRecord
  let record ← context "no server switch to confirm" last
  Prog.bailIf record.reverted ("the switch to " ++ record.to ++ " was rolled back")
  let current : Option String ← ask (.readLink .current)
  Prog.bailIf (current ≠ some record.to) ("the current version is not " ++ record.to)
  markConfirmed record

def storeMigrated (record : Upgrade) : M Bool := do
  let stored : Bool ← ask .databaseExists
  if stored then
    let schema : Nat ← ask .schemaVersion
    return decide (record.schemaBefore < schema)
  else
    return false

def setAside (creator : String) : M Unit := do
  ask (.renameAside "-wal" creator)
  ask (.renameAside "-shm" creator)
  ask (.renameAside "" creator)

/-- `current` is pointed at a version unless it names it already. -/
def select («from» : String) : M Unit := do
  let current : Option String ← ask (.readLink .current)
  if current = some «from» then pure () else ask (.point .current «from»)

/-- What an interrupted restore has left to do to the store. -/
def finishStore (record : Upgrade) : Option String → M Unit
  | some backup => do
    let migrated ← storeMigrated record
    if migrated then ask (.restoreStore backup) else pure ()
  | none => do
    let moved : Bool ← ask (.asideExists record.to)
    if moved then pure () else setAside record.to

/-- An interrupted restore is finished first. -/
def finishRestore (record : Upgrade) («from» : String) : M Upgrade :=
  if record.reverted && record.restoring && !record.restored then do
    select «from»
    finishStore record record.backup
    ask (.writeRecord { record with restored := true })
    return { record with restored := true }
  else
    pure record

/-- A store that was restored is not looked at again. -/
def mustRestore (record : Upgrade) : M Bool :=
  if record.restored then pure false else storeMigrated record

def migratedText (record : Upgrade) : String :=
  "server version " ++ record.to ++ " migrated the store past schema " ++
    toString record.schemaBefore ++
    "; stop the server and roll back with --restore-backup, which " ++
    (match record.backup with
    | some path => "restores " ++ path
    | none => "moves the store it created aside") ++
    " and gives up what was written since"

def markReverted (record : Upgrade) : M Upgrade :=
  if record.reverted then
    pure record
  else do
    ask (.writeRecord { record with reverted := true })
    return { record with reverted := true }

def markRestoring (migrated : Bool) (record : Upgrade) : M Upgrade :=
  if migrated then do
    ask (.writeRecord { record with restoring := true })
    return { record with restoring := true }
  else
    pure record

def restoreFrom (record : Upgrade) : Option String → M Unit
  | some backup => ask (.restoreStore backup)
  | none => setAside record.to

def restore (migrated : Bool) (record : Upgrade) : M Upgrade :=
  if migrated then do
    restoreFrom record record.backup
    ask (.writeRecord { record with restored := true })
    return { record with restored := true }
  else
    pure record

def revert (restoreBackup : Bool) : M Reverted := do
  let last ← ask .readRecord
  let record ← context "no server switch to roll back" last
  let «from» ← context "the first installed version has nothing to roll back to" record.from
  let record ← finishRestore record «from»
  let migrated ← mustRestore record
  Prog.bailIf (migrated && !restoreBackup) (migratedText record)
  let record ← markReverted record
  let record ← markRestoring migrated record
  select «from»
  let record ← restore migrated record
  return ⟨«from», record.restored⟩

/-! ### Runs -/

inductive Event
  | stage (id : String)
  | start
  | switch (id : String) (nowMs : Int) (oracles : List (Oracle interface))
  | confirm (oracles : List (Oracle interface))
  | revert (restoreBackup : Bool) (oracles : List (Oracle interface))

section Step

-- the schema version each version of the server supports
variable (supports : String → Nat)

def Home.start (h : Home) : Home :=
  match h.current with
  | none => h
  | some version =>
    if ∀ schema ∈ h.store, schema ≤ supports version then
      { h with store := some (supports version), log := .started version :: h.log }
    else h

/-- The oracles of a command end where it is killed. -/
def Home.step (h : Home) : Event → Option Home
  | .stage id => some { h with staged := id :: h.staged }
  | .start => some (h.start supports)
  | .switch id nowMs oracles => some ((switch id nowMs).run.play exec oracles h)
  | .confirm oracles => some (confirm.run.play exec oracles h)
  | .revert restoreBackup oracles => some ((revert restoreBackup).run.play exec oracles h)

end Step

end Tenkai.ServerHome
