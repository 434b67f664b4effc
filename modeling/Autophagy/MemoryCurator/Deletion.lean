/-
# Autophagy.MemoryCurator.Deletion — one entry is deleted, and where the deletion is not all or nothing.

`deletion.py`: `delete_entry` takes Hermes' lock, compares the file with the snapshot, copies it to a backup that must
not exist yet, puts a file without the entry in its place and reads that back. Each system call may fail. Where a
call is guarded its failure is a `DeletionError`; the ones around the lock's descriptor are not guarded, nor is the
removal of a temporary file that could not be put in place.

`deleteEntry_atomic_iff` says exactly when what comes of it is all or nothing: an error and the file as it was, or a
file that has the other entries as they stood in it. Two things stand against it besides the unguarded calls. The file
is read back after it was replaced, and an error there is the same error as one before. And every entry that is kept
is written with newlines for its line boundaries.
-/
import Autophagy.MemoryCurator.Stored
import Autophagy.MemoryCurator.Apply
import Autophagy.Python.JsonAscii
import Autophagy.Registry.Exclusive
import Autophagy.Effect.Stateful

namespace Autophagy.MemoryCurator

open Autophagy.Python Autophagy.Effect

/-! ## §1 — The directory -/

/-- What a path leads to, links not followed. -/
inductive Node
  | absent
  | link
  | directory
  | special
  | file (data : Bytes)
  deriving DecidableEq

/-- The paths that a deletion touches: the memory file, its lock, the backup and the temporary file. -/
structure World where
  memory : Node
  lock : Node
  backup : Node
  temp : Option Bytes

/-- The system calls that may fail; those of a second reading of the file are calls of their own. -/
inductive Call
  | lstat
  | createLock
  | openLock
  | wrapLock
  | chmodLock
  | statLock
  | flock
  | closeLock
  | openMemory (again : Bool)
  | statMemory (again : Bool)
  | readMemory (again : Bool)
  | createBackup
  | writeBackup
  | makeTemp
  | writeTemp
  | chmodTemp
  | replace
  | unlinkTemp
  deriving DecidableEq

/-- What a deletion meets: which calls fail, whether another process holds the lock, and what is left of a file that
cannot be written. -/
structure Env where
  fails : Call → Bool
  held : Bool
  torn : Bytes

/-- What is raised: `DeletionError`, an `OSError` that nothing catches, or a `UnicodeEncodeError`. -/
inductive Fault
  | deletion (message : Str)
  | os (call : Call)
  | encode

/-- `DeletionOutcome` -/
structure DeletionOutcome where
  backupPath : Str
  beforeChars : Nat
  afterChars : Nat

/-- A step of a deletion. -/
abbrev Step := Stateful World Fault

/-- A call of which only the failure matters. -/
def Env.call (env : Env) (call : Call) (fault : Fault) : Step Unit :=
  if env.fails call then Stateful.raise fault else pure ()

/-- `raise DeletionError(message + path)` -/
def deletionError {α : Type} (message path : Str) : Step α := Stateful.raise (.deletion (message ++ path))

/-! ## §2 — The deletion -/

/-- `_read_regular_file`; `again` where it is the second time. -/
def readRegularFile (env : Env) (again : Bool) (path : Str) : Step Bytes := fun world =>
  if env.fails (.openMemory again) ∨ world.memory = .absent ∨ world.memory = .link then
    deletionError (Str.of "memory file could not be opened safely: ") path world
  -- a directory opens, and is refused as a stream
  else if env.fails (.statMemory again) ∨ world.memory = .directory then
    deletionError (Str.of "memory file could not be read: ") path world
  else
    match world.memory with
    | .file data =>
      if env.fails (.readMemory again) then deletionError (Str.of "memory file could not be read: ") path world
      else (.ok data, world)
    | _ => deletionError (Str.of "memory file is no longer regular: ") path world

/-- `path.lstat()` and what it must show. -/
def checkMemory (env : Env) (path : Str) : Step Unit := fun world =>
  if env.fails .lstat ∨ world.memory = .absent then
    deletionError (Str.of "memory file is not accessible: ") path world
  else
    match world.memory with
    | .link => deletionError (Str.of "memory file must not be a symlink: ") path world
    | .file _ => (.ok (), world)
    | _ => deletionError (Str.of "memory path is not a regular file: ") path world

/-- The lock's descriptor; answers whether the lock was created. -/
def openLock (env : Env) (lockPath : Str) : Step Bool := fun world =>
  if env.fails .createLock then deletionError (Str.of "memory lock could not be created: ") lockPath world
  else if world.lock = .absent then (.ok true, { world with lock := .file [] })
  else if env.fails .openLock ∨ world.lock = .link ∨ world.lock = .directory then
    deletionError (Str.of "memory lock is not accessible: ") lockPath world
  else (.ok false, world)

/-- `if lock_created: os.fchmod(…)` -/
def restrictLock (env : Env) (created : Bool) : Step Unit :=
  if created then env.call .chmodLock (.os .chmodLock) else pure ()

/-- `fcntl.flock(…, LOCK_EX | LOCK_NB)`, on a lock that is a regular file. -/
def takeLock (env : Env) (lockPath : Str) : Step Unit := fun world =>
  match world.lock with
  | .file _ =>
    if env.held then deletionError (Str.of "memory lock is already held: ") lockPath world
    else if env.fails .flock then deletionError (Str.of "memory lock could not be acquired: ") lockPath world
    else (.ok (), world)
  | _ => deletionError (Str.of "memory lock is not a regular file: ") lockPath world

/-- The backup, which must not exist yet. -/
def persistBackup (env : Env) (backupPath : Str) (data : Bytes) : Step Unit := fun world =>
  if world.backup ≠ .absent then deletionError (Str.of "deletion backup already exists: ") backupPath world
  else if env.fails .createBackup then deletionError (Str.of "deletion backup could not be created: ") backupPath world
  else if env.fails .writeBackup then
    deletionError (Str.of "deletion backup could not be persisted: ") backupPath { world with backup := .file env.torn }
  else (.ok (), { world with backup := .file data })

/-- The bytes in a temporary file, and that in the memory file's place. -/
def replaceMemory (env : Env) (rewritten : Bytes) : Step Unit := fun world =>
  if env.fails .makeTemp then deletionError (Str.of "temporary deletion file could not be created") [] world
  else if env.fails .writeTemp ∨ env.fails .chmodTemp ∨ env.fails .replace then
    if env.fails .unlinkTemp then (.error (.os .unlinkTemp), { world with temp := some env.torn })
    else deletionError (Str.of "memory file could not be replaced atomically") [] world
  else (.ok (), { world with memory := .file rewritten })

/-- What is read back must be what was written, one entry fewer, and without the one that was removed. -/
def verify (kind : MemoryKind) (original : MemoryFile) (removed : MemoryEntry) (rewritten readBack : Bytes) :
    Step Unit :=
  match decodeUtf8 readBack with
  | none => deletionError (Str.of "rewritten memory file is not valid UTF-8") []
  | some text =>
    let verified := parseMemoryFile kind text
    if readBack ≠ rewritten ∨ verified.entries.length + 1 ≠ original.entries.length ∨
        verified.entries.any (fun entry => entry.text = removed.text) then
      deletionError (Str.of "rewritten memory file failed deletion verification") []
    else pure ()

/-- The body of the `with` statement behind the lock. -/
def deleteLocked (env : Env) (path : Str) (kind : MemoryKind) (index : Nat) (expected : Bytes) (stamp : Str) :
    Step DeletionOutcome := do
  let data ← readRegularFile env false path
  if data ≠ expected then deletionError (Str.of "memory snapshot changed before deletion") []
  else
    match decodeUtf8 data with
    | none => deletionError (Str.of "memory file is not valid UTF-8") []
    | some text =>
      let original := parseMemoryFile kind text
      match original.entries[index]? with
      | none => deletionError (Str.of "memory entry index is out of range: ") (natText index)
      | some removed =>
        let backupPath := path ++ Str.of ".deleted-" ++ stamp
        persistBackup env backupPath data
        let remaining : MemoryFile := ⟨kind, original.entries.eraseIdx index⟩
        match utf8 (serializeMemoryFile remaining) with
        | none => Stateful.raise .encode
        | some rewritten =>
          replaceMemory env rewritten
          let readBack ← readRegularFile env true path
          verify kind original removed rewritten readBack
          pure ⟨backupPath, original.charCount, remaining.charCount⟩

/-- `with os.fdopen(…) as lock_file: …` — the descriptor is closed at the end, and an error there is raised in place of
what the body came to. -/
def withLock {α : Type} (env : Env) (body : Step α) : Step α := do
  env.call .wrapLock (.os .wrapLock)
  let result ← Stateful.attempt body
  env.call .closeLock (.os .closeLock)
  Stateful.get result

/-- `delete_entry`; `stamp` is the time as it stands in the backup's name. -/
def deleteEntry (env : Env) (memoryDir : Str) (kind : MemoryKind) (index : Nat) (expected : Bytes) (stamp : Str) :
    Step DeletionOutcome := do
  let path := memoryPath memoryDir kind
  let lockPath := path ++ Str.of ".lock"
  checkMemory env path
  let created ← openLock env lockPath
  withLock env do
    restrictLock env created
    env.call .statLock (.os .statLock)
    takeLock env lockPath
    deleteLocked env path kind index expected stamp

/-! ## §3 — What each part comes to -/

section Parts

variable {env : Env} {world : World}

/-- The file can be read. -/
def Env.Reads (env : Env) (again : Bool) : Prop :=
  env.fails (.openMemory again) = false ∧ env.fails (.statMemory again) = false ∧ env.fails (.readMemory again) = false

/-- A temporary file is put in the memory file's place. -/
def Env.Replaces (env : Env) : Prop :=
  env.fails .writeTemp = false ∧ env.fails .chmodTemp = false ∧ env.fails .replace = false

instance (env : Env) (again : Bool) : Decidable (env.Reads again) := by
  unfold Env.Reads
  infer_instance

instance (env : Env) : Decidable env.Replaces := by
  unfold Env.Replaces
  infer_instance

theorem readRegularFile_reads {again : Bool} (h : env.Reads again) (path : Str) {data : Bytes}
    (hfile : world.memory = .file data) : readRegularFile env again path world = (.ok data, world) := by
  obtain ⟨hopen, hstat, hread⟩ := h
  simp [readRegularFile, hfile, hopen, hstat, hread]

theorem readRegularFile_fails {again : Bool} (h : ¬ env.Reads again) (path : Str) {data : Bytes}
    (hfile : world.memory = .file data) :
    ∃ message, readRegularFile env again path world = (.error (.deletion message), world) := by
  simp only [readRegularFile, hfile]
  split
  · exact ⟨_, rfl⟩
  split
  · exact ⟨_, rfl⟩
  split
  · exact ⟨_, rfl⟩
  · next hopen hstat hread =>
      simp only [Env.Reads, not_and_or, Bool.not_eq_false] at h
      simp only [reduceCtorEq, or_false] at hopen hstat
      tauto

theorem persistBackup_absent (habsent : world.backup = .absent) (hcreate : env.fails .createBackup = false)
    (hwrite : env.fails .writeBackup = false) (path : Str) (data : Bytes) :
    persistBackup env path data world = (.ok (), { world with backup := .file data }) := by
  simp [persistBackup, habsent, hcreate, hwrite]

theorem persistBackup_fails (path : Str) (data : Bytes) (h : ¬ (world.backup = .absent ∧
    env.fails .createBackup = false ∧ env.fails .writeBackup = false)) :
    ∃ message after, persistBackup env path data world = (.error (.deletion message), after) ∧
      after.memory = world.memory := by
  unfold persistBackup
  split
  · exact ⟨_, _, rfl, rfl⟩
  split
  · exact ⟨_, _, rfl, rfl⟩
  split
  · exact ⟨_, _, rfl, rfl⟩
  · next habsent hcreate hwrite =>
      exact absurd ⟨not_not.mp habsent, Bool.eq_false_iff.mpr hcreate, Bool.eq_false_iff.mpr hwrite⟩ h

theorem replaceMemory_replaces (hmake : env.fails .makeTemp = false) (h : env.Replaces) (rewritten : Bytes) :
    replaceMemory env rewritten world = (.ok (), { world with memory := .file rewritten }) := by
  obtain ⟨hwrite, hchmod, hreplace⟩ := h
  simp [replaceMemory, hmake, hwrite, hchmod, hreplace]

theorem replaceMemory_fails (h : ¬ (env.fails .makeTemp = false ∧ env.Replaces)) (rewritten : Bytes) :
    ∃ fault after, replaceMemory env rewritten world = (.error fault, after) ∧ after.memory = world.memory ∧
      ((∃ message, fault = .deletion message) ↔ (env.fails .makeTemp = false → env.fails .unlinkTemp = false)) := by
  unfold replaceMemory
  split
  · next hmake => exact ⟨_, _, rfl, rfl, by simp [hmake]⟩
  split
  · next hmake hfail =>
      split
      · next hunlink => exact ⟨_, _, rfl, rfl, by simp [hmake, hunlink]⟩
      · next hunlink => exact ⟨_, _, rfl, rfl, by simp [hunlink]⟩
  · next hmake hfail =>
      simp only [not_or, Bool.not_eq_true] at hmake hfail
      exact absurd ⟨hmake, hfail⟩ h

theorem withLock_apply {α : Type} (env : Env) (body : Step α) (world : World) : withLock env body world =
    if env.fails .wrapLock then (.error (.os .wrapLock), world)
    else if env.fails .closeLock then (.error (.os .closeLock), (body world).2)
    else body world := by
  simp only [withLock, Env.call, Stateful.bind_apply]
  cases env.fails .wrapLock <;> cases env.fails .closeLock <;> rfl

end Parts

/-! ## §4 — All or nothing -/

/-- What a deletion came to is all or nothing: a `DeletionError` and the file as it was, or the old bytes in the backup,
and in the file the old entries without the one, parsed and as they stand in it. -/
def Atomic (kind : MemoryKind) (index : Nat) (before : World) (result : Except Fault DeletionOutcome × World) : Prop :=
  match result with
  | (.error (.deletion _), after) => after.memory = before.memory
  | (.error _, _) => False
  | (.ok _, after) => ∃ old new oldText newText, before.memory = .file old ∧ after.backup = .file old ∧
      after.memory = .file new ∧ decodeUtf8 old = some oldText ∧ decodeUtf8 new = some newText ∧
      (parseMemoryFile kind newText).entries = (parseMemoryFile kind oldText).entries.eraseIdx index ∧
      storedEntries newText = (storedEntries oldText).eraseIdx index

/-- The lock is opened. -/
def Opened (env : Env) (world : World) : Prop :=
  env.fails .lstat = false ∧ (∃ data, world.memory = .file data) ∧ env.fails .createLock = false ∧
    (world.lock = .absent ∨ env.fails .openLock = false ∧ world.lock ≠ .link ∧ world.lock ≠ .directory)

/-- The lock is taken. -/
def Taken (env : Env) (world : World) : Prop :=
  (world.lock = .absent ∨ ∃ data, world.lock = .file data) ∧ env.held = false ∧ env.fails .flock = false

/-- The file is as expected, the backup is written and there is a temporary file. -/
def Prepared (env : Env) (expected : Bytes) (world : World) : Prop :=
  env.Reads false ∧ world.memory = .file expected ∧
    (world.backup = .absent ∧ env.fails .createBackup = false ∧ env.fails .writeBackup = false) ∧
    env.fails .makeTemp = false

/-- The entries that are kept have no line boundaries but newlines. -/
def KeptLines (text : Str) (index : Nat) : Prop :=
  ∀ body ∈ (storedEntries text).eraseIdx index, ∀ c ∈ body, isBreak c = true → c = 0x0a

/-- The condition: no call fails that is not guarded, where a deletion comes to it; the file can be read back once it was
replaced; and the entries that are kept have no boundaries but newlines. -/
def Sound (env : Env) (text : Str) (index : Nat) (expected : Bytes) (world : World) : Prop :=
  Opened env world →
    env.fails .wrapLock = false ∧ (world.lock = .absent → env.fails .chmodLock = false) ∧
    env.fails .statLock = false ∧ env.fails .closeLock = false ∧
    (Taken env world → Prepared env expected world →
      if env.Replaces then env.Reads true ∧ KeptLines text index else env.fails .unlinkTemp = false)

section Deleting

variable {env : Env} {kind : MemoryKind} {index : Nat} {expected : Bytes} {text : Str} {world : World}

theorem serialize_kept (hdecode : decodeUtf8 expected = some text) (kind : MemoryKind) (index : Nat) :
    ∃ rewritten newText, utf8 (serializeMemoryFile ⟨kind, (parseMemoryFile kind text).entries.eraseIdx index⟩) =
        some rewritten ∧ decodeUtf8 rewritten = some newText ∧
      (parseMemoryFile kind newText).entries = (parseMemoryFile kind text).entries.eraseIdx index ∧
      storedEntries newText = ((storedEntries text).eraseIdx index).map newlines := by
  have hsub : ∀ entry ∈ (parseMemoryFile kind text).entries.eraseIdx index, entry ∈ (parseMemoryFile kind text).entries :=
    fun entry hentry => List.mem_of_mem_eraseIdx hentry
  have hencodes : Registry.Encodes (serializeMemoryFile ⟨kind, (parseMemoryFile kind text).entries.eraseIdx index⟩) := by
    intro c hc
    rcases (mem_serialize hsub hc).1 with htext | hjoin
    · have hscalar := JsonScan.scalar_iff.mp (JsonScan.scalar_of_decodeUtf8 hdecode c htext)
      unfold utf8Char
      grind
    · have hchars : ∀ d ∈ join, utf8Char d ≠ none := by decide
      exact hchars c hjoin
  obtain ⟨rewritten, hrewritten⟩ := Registry.utf8_isSome hencodes
  have hparse : parseMemoryFile kind (serializeMemoryFile ⟨kind, (parseMemoryFile kind text).entries.eraseIdx index⟩) =
      ⟨kind, (parseMemoryFile kind text).entries.eraseIdx index⟩ := by
    have hkept : ∀ entry ∈ (MemoryFile.mk kind ((parseMemoryFile kind text).entries.eraseIdx index)).entries,
        IsEntry entry.text := fun entry hentry => isEntry_of_mem_parse (hsub entry hentry)
    exact parse_serialize hkept
  refine ⟨rewritten, _, hrewritten, decodeUtf8_utf8 hrewritten, congrArg MemoryFile.entries hparse, ?_⟩
  rw [stored_eq_parsed kind fun c hc => (mem_serialize hsub hc).2, hparse, ← List.eraseIdx_map, parse_stored,
    List.eraseIdx_map]

theorem verify_kept {removed : MemoryEntry} (hremoved : (parseMemoryFile kind text).entries[index]? = some removed)
    (honly : ∀ j entry, (parseMemoryFile kind text).entries[j]? = some entry → entry.text = removed.text → j = index)
    {rewritten : Bytes} {newText : Str} (hnew : decodeUtf8 rewritten = some newText)
    (hentries : (parseMemoryFile kind newText).entries = (parseMemoryFile kind text).entries.eraseIdx index) :
    verify kind (parseMemoryFile kind text) removed rewritten rewritten = pure () := by
  obtain ⟨hindex, -⟩ := List.getElem?_eq_some_iff.mp hremoved
  have hcount : (parseMemoryFile kind newText).entries.length + 1 = (parseMemoryFile kind text).entries.length := by
    rw [hentries, List.length_eraseIdx_of_lt hindex]
    omega
  have habsent : (parseMemoryFile kind newText).entries.any (fun entry => entry.text = removed.text) = false := by
    refine List.any_eq_false.mpr fun entry hentry => ?_
    rw [hentries] at hentry
    obtain ⟨j, hj, hget⟩ := List.mem_eraseIdx_iff_getElem?.mp hentry
    simpa using fun heq => hj (honly j entry hget heq)
  simp [verify, hnew, hcount, habsent]

/-- **The body is all or nothing** under what is left of the condition there. -/
theorem deleteLocked_atomic_iff (hdecode : decodeUtf8 expected = some text) {removed : MemoryEntry}
    (hremoved : (parseMemoryFile kind text).entries[index]? = some removed)
    (honly : ∀ j entry, (parseMemoryFile kind text).entries[j]? = some entry → entry.text = removed.text → j = index)
    {data : Bytes} (hfile : world.memory = .file data) (path stamp : Str) :
    Atomic kind index world (deleteLocked env path kind index expected stamp world) ↔ (Prepared env expected world →
        if env.Replaces then env.Reads true ∧ KeptLines text index else env.fails .unlinkTemp = false) := by
  obtain ⟨rewritten, newText, hrewritten, hnew, hentries, hstored⟩ := serialize_kept hdecode kind index
  by_cases hread : env.Reads false
  swap
  · obtain ⟨message, hfails⟩ := readRegularFile_fails hread path hfile
    rw [deleteLocked, Stateful.bind_of_error hfails]
    exact ⟨fun _ hprepared => absurd hprepared.1 hread, fun _ => rfl⟩
  rw [deleteLocked, Stateful.bind_of_ok (readRegularFile_reads hread path hfile)]
  by_cases hsame : data = expected
  swap
  · rw [if_pos hsame]
    refine ⟨fun _ hprepared => ?_, fun _ => rfl⟩
    exact absurd (Node.file.inj (hfile.symm.trans hprepared.2.1)) hsame
  subst hsame
  simp only [ne_eq, not_true_eq_false, if_false, hdecode, hremoved, hrewritten]
  by_cases hbackup : world.backup = .absent ∧ env.fails .createBackup = false ∧ env.fails .writeBackup = false
  swap
  · obtain ⟨message, after, hfails, hmemory⟩ := persistBackup_fails _ data hbackup
    rw [Stateful.bind_of_error hfails]
    exact ⟨fun _ hprepared => absurd hprepared.2.2.1 hbackup, fun _ => hmemory⟩
  rw [Stateful.bind_of_ok (persistBackup_absent hbackup.1 hbackup.2.1 hbackup.2.2 _ data)]
  by_cases hreplaces : env.fails .makeTemp = false ∧ env.Replaces
  swap
  · obtain ⟨fault, after, hfails, hmemory, hfault⟩ := replaceMemory_fails hreplaces rewritten
    rw [Stateful.bind_of_error hfails]
    constructor
    · intro hatomic hprepared
      rw [if_neg fun h => hreplaces ⟨hprepared.2.2.2, h⟩]
      refine hfault.mp ?_ hprepared.2.2.2
      cases fault with
      | deletion message => exact ⟨message, rfl⟩
      | os call => exact hatomic.elim
      | encode => exact hatomic.elim
    · intro hcondition
      obtain ⟨message, rfl⟩ := hfault.mpr fun hmake => by
        have := hcondition ⟨hread, hfile, hbackup, hmake⟩
        rwa [if_neg fun h => hreplaces ⟨hmake, h⟩] at this
      exact hmemory
  rw [Stateful.bind_of_ok (replaceMemory_replaces hreplaces.1 hreplaces.2 rewritten)]
  have hprepared : Prepared env data world := ⟨hread, hfile, hbackup, hreplaces.1⟩
  rw [if_pos hreplaces.2]
  by_cases hagain : env.Reads true
  · rw [Stateful.bind_of_ok (readRegularFile_reads hagain path rfl), verify_kept hremoved honly hnew hentries]
    constructor
    · rintro ⟨old, new, oldText, newText', hold, -, hmem, hdecodeOld, hdecodeNew, -, hstored'⟩ -
      obtain rfl := Node.file.inj (hfile.symm.trans hold)
      obtain rfl := Node.file.inj hmem
      obtain rfl := Option.some.inj (hdecode.symm.trans hdecodeOld)
      obtain rfl := Option.some.inj (hnew.symm.trans hdecodeNew)
      refine ⟨hagain, fun body hbody => newlines_eq_self.mp ?_⟩
      rw [hstored] at hstored'
      exact List.map_eq_map_iff.mp (hstored'.trans (List.map_id _).symm) body hbody
    · intro hcondition
      refine ⟨data, rewritten, text, newText, hfile, rfl, rfl, hdecode, hnew, hentries, ?_⟩
      rw [hstored]
      conv_rhs => rw [← List.map_id ((storedEntries text).eraseIdx index)]
      exact List.map_congr_left fun body hbody => newlines_eq_self.mpr ((hcondition hprepared).2 body hbody)
  · have hfails := fun (w : World) (h : w.memory = .file rewritten) => readRegularFile_fails hagain path h
    obtain ⟨message, hfails⟩ := hfails { world with backup := .file data, memory := .file rewritten } rfl
    rw [Stateful.bind_of_error hfails]
    refine ⟨fun hatomic => ?_, fun hcondition => absurd (hcondition hprepared).1 hagain⟩
    -- what was written has an entry fewer than what was there
    have heq : rewritten = data := Node.file.inj (hatomic.trans hfile)
    rw [heq, hdecode] at hnew
    obtain rfl := Option.some.inj hnew
    have hlength := congrArg List.length hentries
    rw [List.length_eraseIdx_of_lt (List.getElem?_eq_some_iff.mp hremoved).1] at hlength
    have := (List.getElem?_eq_some_iff.mp hremoved).1
    omega

/-- The directory with the lock, created where there was none. -/
def World.locked (world : World) : World :=
  if world.lock = .absent then { world with lock := .file [] } else world

@[simp] theorem World.locked_memory (world : World) : world.locked.memory = world.memory := by
  unfold World.locked
  split <;> rfl

@[simp] theorem World.locked_backup (world : World) : world.locked.backup = world.backup := by
  unfold World.locked
  split <;> rfl

theorem atomic_locked {result : Except Fault DeletionOutcome × World} :
    Atomic kind index world.locked result ↔ Atomic kind index world result := by
  unfold Atomic
  rw [World.locked_memory]

theorem checkMemory_file (hstat : env.fails .lstat = false) {data : Bytes} (hfile : world.memory = .file data)
    (path : Str) : checkMemory env path world = (.ok (), world) := by
  simp [checkMemory, hstat, hfile]

theorem openLock_opened (hcreate : env.fails .createLock = false) (hlock : world.lock = .absent ∨
    env.fails .openLock = false ∧ world.lock ≠ .link ∧ world.lock ≠ .directory) (lockPath : Str) :
    openLock env lockPath world = (.ok (decide (world.lock = .absent)), world.locked) := by
  unfold openLock World.locked
  by_cases habsent : world.lock = .absent
  · simp [hcreate, habsent]
  · obtain ⟨hopen, hlink, hdirectory⟩ := hlock.resolve_left habsent
    simp [hcreate, habsent, hopen, hlink, hdirectory]

theorem deleteEntry_closed (h : ¬ Opened env world) (memoryDir : Str) (kind : MemoryKind) (index : Nat)
    (expected : Bytes) (stamp : Str) : ∃ message,
    deleteEntry env memoryDir kind index expected stamp world = (.error (.deletion message), world) := by
  have hcheck : (env.fails .lstat = false ∧ ∃ data, world.memory = .file data) ∨ ∃ message,
      checkMemory env (memoryPath memoryDir kind) world = (.error (.deletion message), world) := by
    unfold checkMemory
    split
    · exact .inr ⟨_, rfl⟩
    · next hstat =>
        rw [not_or, Bool.not_eq_true] at hstat
        split
        · exact .inr ⟨_, rfl⟩
        · next data hfile => exact .inl ⟨hstat.1, data, hfile⟩
        · exact .inr ⟨_, rfl⟩
  rcases hcheck with ⟨hstat, data, hfile⟩ | ⟨message, hfails⟩
  swap
  · exact ⟨message, Stateful.bind_of_error hfails _⟩
  have hopen : ∀ lockPath, ∃ message, openLock env lockPath world = (.error (.deletion message), world) := by
    intro lockPath
    unfold openLock
    split
    · exact ⟨_, rfl⟩
    · next hcreate =>
        rw [Bool.not_eq_true] at hcreate
        split
        · next habsent => exact absurd ⟨hstat, ⟨data, hfile⟩, hcreate, .inl habsent⟩ h
        split
        · exact ⟨_, rfl⟩
        · next habsent hlock =>
            rw [not_or, not_or, Bool.not_eq_true] at hlock
            exact absurd ⟨hstat, ⟨data, hfile⟩, hcreate, .inr hlock⟩ h
  obtain ⟨message, hfails⟩ := hopen (memoryPath memoryDir kind ++ Str.of ".lock")
  refine ⟨message, ?_⟩
  rw [deleteEntry, Stateful.bind_of_ok (checkMemory_file hstat hfile _), Stateful.bind_of_error hfails]

theorem takeLock_apply (env : Env) (lockPath : Str) (world : World) :
    (Taken env world ∧ takeLock env lockPath world.locked = (.ok (), world.locked)) ∨ (¬ Taken env world ∧
      ∃ message, takeLock env lockPath world.locked = (.error (.deletion message), world.locked)) := by
  have hregular : (world.lock = .absent ∨ ∃ data, world.lock = .file data) ↔ ∃ data, world.locked.lock = .file data := by
    unfold World.locked
    split
    · next habsent => simp [habsent]
    · next habsent => simp [habsent]
  rw [Taken, hregular]
  unfold takeLock
  split
  · next data hfile =>
      split
      · next hheld => exact .inr ⟨by simp [hheld], _, rfl⟩
      split
      · next hheld hflock => exact .inr ⟨by simp [hflock], _, rfl⟩
      · next hheld hflock => exact .inl ⟨⟨⟨data, hfile⟩, by simpa using hheld, by simpa using hflock⟩, rfl⟩
  · next hfile => exact .inr ⟨fun htaken => (htaken.1.elim hfile), _, rfl⟩

theorem deleteEntry_opened (h : Opened env world) (memoryDir : Str) (kind : MemoryKind) (index : Nat)
    (expected : Bytes) (stamp : Str) :
    Atomic kind index world (deleteEntry env memoryDir kind index expected stamp world) ↔
      env.fails .wrapLock = false ∧ (world.lock = .absent → env.fails .chmodLock = false) ∧
      env.fails .statLock = false ∧ env.fails .closeLock = false ∧
      (Taken env world → Atomic kind index world.locked
        (deleteLocked env (memoryPath memoryDir kind) kind index expected stamp world.locked)) := by
  obtain ⟨hstat, ⟨data, hfile⟩, hcreate, hlock⟩ := h
  rw [deleteEntry, Stateful.bind_of_ok (checkMemory_file hstat hfile _),
    Stateful.bind_of_ok (openLock_opened hcreate hlock _), withLock_apply]
  -- the errors that nothing catches
  cases hwrap : env.fails .wrapLock with
  | true => simp [Atomic]
  | false =>
  cases hclose : env.fails .closeLock with
  | true => simp [Atomic]
  | false =>
  simp only [Bool.false_eq_true, if_false, true_and]
  by_cases hchmod : world.lock = .absent ∧ env.fails .chmodLock = true
  · obtain ⟨habsent, hchmod⟩ := hchmod
    simp [restrictLock, habsent, hchmod, Env.call, Stateful.bind_apply, Atomic]
  have hquiet : restrictLock env (decide (world.lock = .absent)) world.locked = (.ok (), world.locked) := by
    by_cases habsent : world.lock = .absent
    · have hno : env.fails .chmodLock = false := by simpa [habsent] using hchmod
      simp [restrictLock, habsent, Env.call, hno]
    · simp [restrictLock, habsent]
  rw [Stateful.bind_of_ok hquiet]
  cases hfstat : env.fails .statLock with
  | true => simp [Env.call, hfstat, Stateful.bind_apply, Atomic]
  | false =>
  have hcall : env.call .statLock (.os .statLock) world.locked = (.ok (), world.locked) := by simp [Env.call, hfstat]
  rw [Stateful.bind_of_ok hcall]
  have hchmod : world.lock = .absent → env.fails .chmodLock = false := by simpa using hchmod
  rcases takeLock_apply env (memoryPath memoryDir kind ++ Str.of ".lock") world with ⟨htaken, htake⟩ |
    ⟨htaken, message, htake⟩
  · rw [Stateful.bind_of_ok htake, atomic_locked]
    exact ⟨fun h => ⟨hchmod, rfl, fun _ => h⟩, fun h => h.2.2 htaken⟩
  · rw [Stateful.bind_of_error htake]
    exact ⟨fun _ => ⟨hchmod, rfl, fun h => absurd h htaken⟩, fun _ => World.locked_memory world⟩

end Deleting

/-- **Exactly when a deletion is all or nothing**, for a caller that read the bytes it expects and names the only entry
with its text: for every directory and every way the calls may fail, what comes of it is a `DeletionError` and the file
as it was, or a backup of the old bytes and the other entries as they stood, just where the condition holds. -/
theorem deleteEntry_atomic_iff (env : Env) (memoryDir : Str) (kind : MemoryKind) (index : Nat) (expected : Bytes)
    (stamp : Str) (world : World) {text : Str} (hdecode : decodeUtf8 expected = some text) {removed : MemoryEntry}
    (hremoved : (parseMemoryFile kind text).entries[index]? = some removed)
    (honly : ∀ j entry, (parseMemoryFile kind text).entries[j]? = some entry → entry.text = removed.text → j = index) :
    Atomic kind index world (deleteEntry env memoryDir kind index expected stamp world) ↔
      Sound env text index expected world := by
  by_cases hopened : Opened env world
  · obtain ⟨-, ⟨data, hfile⟩, -, -⟩ := id hopened
    have hlocked : world.locked.memory = .file data := by rw [World.locked_memory, hfile]
    have hprepared : Prepared env expected world.locked ↔ Prepared env expected world := by simp [Prepared]
    rw [deleteEntry_opened hopened, deleteLocked_atomic_iff hdecode hremoved honly hlocked, hprepared]
    exact ⟨fun h _ => h, fun h => h hopened⟩
  · obtain ⟨message, hfails⟩ := deleteEntry_closed hopened memoryDir kind index expected stamp
    rw [hfails]
    exact ⟨fun _ hopen => absurd hopen hopened, fun _ => rfl⟩

/-! ## §5 — Two deletions that are not -/

/-- A directory with nothing but a memory file. -/
def directoryOf (data : Bytes) : World := ⟨.file data, .absent, .absent, none⟩

/-- Only the calls of the list fail. -/
def failing (calls : List Call) : Env := ⟨fun call => call ∈ calls, false, []⟩

/-- Two entries, the first of which is kept: `a`, a line separator and `b`. -/
def separated : Str := [0x61, 0x2028, 0x62, 0x0a, 0xa7, 0x0a, 0x63]

/-- `separated`, encoded. -/
def separatedBytes : Bytes := [0x61, 0xe2, 0x80, 0xa8, 0x62, 0x0a, 0xc2, 0xa7, 0x0a, 0x63]

theorem separated_parsed : decodeUtf8 separatedBytes = some separated ∧
    (parseMemoryFile .memory separated).entries = [⟨[0x61, 0x0a, 0x62]⟩, ⟨[0x63]⟩] ∧
    storedEntries separated = [[0x61, 0x2028, 0x62], [0x63]] := by
  refine ⟨by decide, by decide, by decide⟩

theorem separated_only : ∀ j entry, (parseMemoryFile .memory separated).entries[j]? = some entry →
    entry.text = [0x63] → j = 1 := by
  rw [separated_parsed.2.1]
  rintro (_ | _ | j) entry hget htext
  · obtain rfl := Option.some.inj hget
    exact absurd htext (by decide)
  · rfl
  · cases hget

theorem separated_removed : (parseMemoryFile .memory separated).entries[1]? = some ⟨[0x63]⟩ := by
  rw [separated_parsed.2.1]
  rfl

theorem separated_condition {calls : List Call} (h : ∀ call ∈ calls, call = .readMemory true)
    (hatomic : Atomic .memory 1 (directoryOf separatedBytes)
      (deleteEntry (failing calls) (Str.of "m") .memory 1 separatedBytes (Str.of "s") (directoryOf separatedBytes))) :
    (failing calls).Reads true ∧ KeptLines separated 1 := by
  have hquiet : ∀ call, call ≠ .readMemory true → (failing calls).fails call = false := fun call hne =>
    decide_eq_false fun hmem => hne (h call hmem)
  have hopened : Opened (failing calls) (directoryOf separatedBytes) :=
    ⟨hquiet _ (by decide), ⟨_, rfl⟩, hquiet _ (by decide), .inl rfl⟩
  have hlocked := ((deleteEntry_opened hopened _ _ _ _ _).mp hatomic).2.2.2.2 ⟨.inl rfl, rfl, hquiet _ (by decide)⟩
  have hcondition := (deleteLocked_atomic_iff separated_parsed.1 separated_removed separated_only
    (World.locked_memory (directoryOf separatedBytes)) _ _).mp hlocked
    ⟨⟨hquiet _ (by decide), hquiet _ (by decide), hquiet _ (by decide)⟩, rfl,
      ⟨rfl, hquiet _ (by decide), hquiet _ (by decide)⟩, hquiet _ (by decide)⟩
  rwa [if_pos ⟨hquiet _ (by decide), hquiet _ (by decide), hquiet _ (by decide)⟩] at hcondition

/-- No call fails, and the entry that is kept comes back with a newline for its separator; nor is it all or nothing
where the file cannot be read back. -/
theorem deletion_not_atomic : decodeUtf8 separatedBytes = some separated ∧
    (parseMemoryFile .memory separated).entries[1]? = some ⟨[0x63]⟩ ∧
    (∀ j entry, (parseMemoryFile .memory separated).entries[j]? = some entry → entry.text = [0x63] → j = 1) ∧
    ¬ Atomic .memory 1 (directoryOf separatedBytes)
      (deleteEntry (failing []) (Str.of "m") .memory 1 separatedBytes (Str.of "s") (directoryOf separatedBytes)) ∧
    ¬ Atomic .memory 1 (directoryOf separatedBytes)
      (deleteEntry (failing [.readMemory true]) (Str.of "m") .memory 1 separatedBytes (Str.of "s")
        (directoryOf separatedBytes)) := by
  refine ⟨separated_parsed.1, separated_removed, separated_only, fun hatomic => ?_, fun hatomic => ?_⟩
  · have hkept := (separated_condition (by simp) hatomic).2
    rw [KeptLines, separated_parsed.2.2] at hkept
    exact absurd (hkept [0x61, 0x2028, 0x62] (by simp) 0x2028 (by simp) rfl) (by decide)
  · exact absurd (separated_condition (by simp) hatomic).1 (by decide)

/-- The first entry of the same file is deleted as it should be. -/
theorem deleteEntry_separator_atomic : Atomic .memory 0 (directoryOf separatedBytes)
    (deleteEntry (failing []) (Str.of "m") .memory 0 separatedBytes (Str.of "s") (directoryOf separatedBytes)) := by
  have hremoved : (parseMemoryFile .memory separated).entries[0]? = some ⟨[0x61, 0x0a, 0x62]⟩ := by
    rw [separated_parsed.2.1]
    rfl
  refine (deleteEntry_atomic_iff _ _ _ _ _ _ _ separated_parsed.1 hremoved ?_).mpr fun _ => ?_
  · rw [separated_parsed.2.1]
    rintro (_ | _ | j) entry hget htext
    · rfl
    · obtain rfl := Option.some.inj hget
      exact absurd htext (by decide)
    · cases hget
  · refine ⟨rfl, fun _ => rfl, rfl, rfl, fun _ _ => ?_⟩
    rw [if_pos (by decide)]
    refine ⟨by decide, ?_⟩
    rw [KeptLines, separated_parsed.2.2]
    decide

end Autophagy.MemoryCurator
