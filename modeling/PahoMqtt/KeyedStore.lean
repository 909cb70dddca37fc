import PahoMqtt.FilePersistence
import PahoMqtt.Lib.Runs

/-!
# The files as a keyed store

The interface of MQTTClientPersistence.h as a map from keys to bytes, and the
functions of MQTTPersistenceDefault.c as its implementation: what each of them does
to the records in the directory of a client, over every sequence of calls.
-/

namespace PahoMqtt
namespace MQTTPersistenceDefault

open MQTTPersistence Lib

/-! ### The interface -/

/-- What is asked of a store. -/
inductive Request where
  | open
  | put (key : Key) (value : Bytes)
  | get (key : Key)
  | remove (key : Key)
  | containskey (key : Key)
  | keys
  | clear

/-- A return code, and what else is returned. -/
inductive Answer where
  | code (rc : Int)
  | value (rc : Int) (buffer : Option (Bytes × Int))
  | keys (rc : Int) (keys : List Key) (nkeys : Nat)
deriving DecidableEq

/-- What a map from keys to bytes answers. -/
inductive Answers : Store → Request × Answer → Store → Prop where
  | open (m : Store) : Answers m (.open, .code 0) m
  | put (m : Store) (key : Key) (value : Bytes) :
      Answers m (.put key value, .code 0) (m.put key value)
  | get (m : Store) (key : Key) (value : Bytes)
      (hpresent : m key = some value) :
      Answers m (.get key, .value 0 (some (value, value.length))) m
  | getAbsent (m : Store) (key : Key)
      (habsent : m key = none) :
      Answers m (.get key, .value PERSISTENCE_ERROR none) m
  | remove (m : Store) (key : Key) :
      Answers m (.remove key, .code 0) (m.remove key)
  | containskey (m : Store) (key : Key)
      (hpresent : m key ≠ none) :
      Answers m (.containskey key, .code 0) m
  | containskeyAbsent (m : Store) (key : Key)
      (habsent : m key = none) :
      Answers m (.containskey key, .code PERSISTENCE_ERROR) m
  | keys (m : Store) (ks : List Key)
      (hkeys : m.Enumerates ks) :
      Answers m (.keys, .keys 0 ks ks.length) m
  | clear (m : Store) : Answers m (.clear, .code 0) ExactMap.empty

theorem Answers.clear_empty
    {m m' : Store} {answer : Answer}
    (h : Answers m (.clear, answer) m') :
    m' = ExactMap.empty := by
  cases h
  rfl

/-! ### The calls -/

/-- The calls, with what `readdir` returns in those that read the directory. -/
inductive Operation where
  | pstopen
  | pstput (key : Key) (buffers : List Bytes)
  | pstget (key : Key)
  | pstremove (key : Key)
  | pstcontainskey (key : Key) (dp : List Path)
  | pstkeys (dp dp' : List Path)
  | pstclear (dp : List Path)

def Operation.request : Operation → Request
  | .pstopen => .open
  | .pstput key buffers => .put key buffers.flatten
  | .pstget key => .get key
  | .pstremove key => .remove key
  | .pstcontainskey key _ => .containskey key
  | .pstkeys _ _ => .keys
  | .pstclear _ => .clear

/-- The files, and the handle that `pstopen` has returned. -/
structure StoreProcess where
  fs : FileSystem
  handle : Option Path

/-- A process that has opened the store of a client. -/
def opened (fs : FileSystem) (clientID serverURI dataDir : List Char) : StoreProcess :=
  let (_, handle, fs) := pstopen fs clientID serverURI dataDir
  { fs, handle }

section Calls

variable (clientID serverURI dataDir : List Char)

/-- A call, where no file operation fails. -/
def StoreProcess.call (p : StoreProcess) : Operation → Answer × StoreProcess
  | .pstopen =>
      let (rc, handle, fs) := MQTTPersistenceDefault.pstopen p.fs clientID serverURI dataDir
      (.code rc, { fs, handle })
  | .pstput key buffers =>
      let (rc, fs) := MQTTPersistenceDefault.pstput .none p.fs p.handle key buffers
      (.code rc, { p with fs })
  | .pstget key =>
      let (rc, buffer) := MQTTPersistenceDefault.pstget p.fs p.handle key
      (.value rc buffer, p)
  | .pstremove key =>
      let (rc, fs) := MQTTPersistenceDefault.pstremove p.fs p.handle key
      (.code rc, { p with fs })
  | .pstcontainskey key dp =>
      (.code (MQTTPersistenceDefault.pstcontainskey p.fs p.handle key dp), p)
  | .pstkeys dp dp' =>
      let (rc, fkeys, nfkeys) := MQTTPersistenceDefault.pstkeys p.fs p.handle dp dp'
      (.keys rc fkeys nfkeys, p)
  | .pstclear dp =>
      let (rc, fs) := MQTTPersistenceDefault.pstclear p.fs p.handle dp
      (.code rc, { p with fs })

/-- The records of the client. -/
def StoreProcess.store (p : StoreProcess) : Store :=
  Directories.records '/' MESSAGE_FILENAME_EXTENSION p.fs.files
    (p.fs.resolve (clientDirectory clientID serverURI dataDir))

/-- What `readdir` returns for the directory of the client. -/
def StoreProcess.Reads (p : StoreProcess) (dp : List Path) : Prop :=
  Directories.Lists '/' p.fs.files (p.fs.resolve (clientDirectory clientID serverURI dataDir)) dp

abbrev IsKey (key : Key) : Prop :=
  Directories.IsKey '/' MESSAGE_FILENAME_EXTENSION key

/-- The keys are without a slash and the extension, and the directory is read as it is. -/
def Operation.Valid (p : StoreProcess) : Operation → Prop
  | .pstopen => True
  | .pstput key _ => IsKey key
  | .pstget key => IsKey key
  | .pstremove key => IsKey key
  | .pstcontainskey key dp => IsKey key ∧ p.Reads clientID serverURI dataDir dp
  | .pstkeys dp dp' =>
      p.Reads clientID serverURI dataDir dp ∧ p.Reads clientID serverURI dataDir dp'
  | .pstclear dp => p.Reads clientID serverURI dataDir dp

def StoreStep (p : StoreProcess) (e : Operation × Answer) (p' : StoreProcess) : Prop :=
  e.1.Valid clientID serverURI dataDir p ∧ p.call clientID serverURI dataDir e.1 = (e.2, p')

/-- The store is open, holds only records, and is not where the process works. -/
structure StoreProcess.Proper (p : StoreProcess) : Prop where
  handle : p.handle = some (clientDirectory clientID serverURI dataDir)
  records : Directories.OnlyRecords '/' MESSAGE_FILENAME_EXTENSION p.fs.files
    (p.fs.resolve (clientDirectory clientID serverURI dataDir))
  cwd : p.fs.cwd ≠ p.fs.resolve (clientDirectory clientID serverURI dataDir)

end Calls

/-! ### What each call does to the records -/

theorem sep_notMem_extension : '/' ∉ MESSAGE_FILENAME_EXTENSION := by
  decide

section Steps

variable {clientID serverURI dataDir : List Char} {p p' : StoreProcess}

/-- The path of a record, and its place among the files. -/
theorem resolve_record
    (fs : FileSystem) (key : Key) :
    fs.resolve (clientDirectory clientID serverURI dataDir ++
        '/' :: (key ++ MESSAGE_FILENAME_EXTENSION)) =
      Directories.recordPath '/' MESSAGE_FILENAME_EXTENSION
        (fs.resolve (clientDirectory clientID serverURI dataDir)) key :=
  resolve_join fs (clientDirectory_ne_nil clientID serverURI dataDir) _

theorem content_record
    {key : Key}
    (hkey : IsKey key) :
    p.fs.content (clientDirectory clientID serverURI dataDir ++
        '/' :: (key ++ MESSAGE_FILENAME_EXTENSION)) =
      p.store clientID serverURI dataDir key := by
  rw [FileSystem.content, resolve_record, StoreProcess.store, Directories.records_of_isKey hkey]

theorem isReg_entry
    (fs : FileSystem) (d_name : Path) :
    fs.isReg (clientDirectory clientID serverURI dataDir ++ '/' :: d_name) =
      (fs.files (Directories.join '/'
        (fs.resolve (clientDirectory clientID serverURI dataDir)) d_name)).isSome := by
  rw [FileSystem.isReg, FileSystem.content,
    resolve_join fs (clientDirectory_ne_nil clientID serverURI dataDir)]

/-- One record is written or removed. -/
theorem StoreProcess.Proper.update
    {key : Key} {fs : FileSystem} {content : Option Bytes}
    (h : p.Proper clientID serverURI dataDir)
    (hkey : IsKey key)
    (hcwd : fs.cwd = p.fs.cwd)
    (hfiles : fs.files = Function.update p.fs.files
      (p.fs.resolve (clientDirectory clientID serverURI dataDir ++
        '/' :: (key ++ MESSAGE_FILENAME_EXTENSION))) content) :
    ({ p with fs } : StoreProcess).Proper clientID serverURI dataDir ∧
      ({ p with fs } : StoreProcess).store clientID serverURI dataDir =
        Function.update (p.store clientID serverURI dataDir) key content := by
  have hresolve : ∀ path, fs.resolve path = p.fs.resolve path := by
    intro path
    rw [FileSystem.resolve, FileSystem.resolve, hcwd]
  rw [resolve_record] at hfiles
  constructor
  · constructor
    · exact h.handle
    · rw [hresolve, hfiles]
      exact h.records.update sep_notMem_extension hkey
    · rw [hresolve, hcwd]
      exact h.cwd
  · rw [StoreProcess.store, hresolve, hfiles]
    exact Directories.records_update sep_notMem_extension hkey

/-- A file is found by its key where one of the entries is its record. -/
theorem containskeyUnix_eq
    (fs : FileSystem) (dirname : Path) (key : Key) (dp : List Path) :
    containskeyUnix fs dirname key dp =
      if key ∈ (regular fs dirname dp).map fileKey then 0 else PERSISTENCE_ERROR := by
  induction dp with
  | nil =>
      rfl
  | cons d_name dp ih =>
      rw [containskeyUnix, ih]
      have hcons : regular fs dirname (d_name :: dp) =
          if fs.isReg (dirname ++ '/' :: d_name) then d_name :: regular fs dirname dp
          else regular fs dirname dp :=
        List.filter_cons
      rw [hcons]
      by_cases hreg : fs.isReg (dirname ++ '/' :: d_name) = true
      · by_cases hkey : fileKey d_name = key
        · rw [if_pos ⟨hreg, hkey⟩, if_pos hreg, if_pos]
          rw [List.map_cons, hkey]
          exact List.mem_cons_self
        · rw [if_neg (fun h => hkey h.2), if_pos hreg]
          simp only [List.map_cons, List.mem_cons, Ne.symm hkey, false_or]
      · rw [if_neg (fun h => hreg h.1), if_neg hreg]

/-- The keys of the regular files are the keys of the records. -/
theorem regular_enumerates
    {dp : List Path}
    (h : p.Proper clientID serverURI dataDir)
    (hdp : p.Reads clientID serverURI dataDir dp) :
    (p.store clientID serverURI dataDir).Enumerates
      ((regular p.fs (clientDirectory clientID serverURI dataDir) dp).map fileKey) := by
  simp only [regular, isReg_entry]
  exact Directories.Lists.enumerates hdp h.records sep_notMem_extension (by decide)

/-- What is removed by its name alone is not in the directory of the client. -/
theorem clearUnix_spec
    {dp : List Path}
    (h : p.Proper clientID serverURI dataDir)
    (hdp : ∀ d_name ∈ dp, '/' ∉ d_name) :
    (clearUnix p.fs dp).1 = 0 ∧
      ({ p with fs := (clearUnix p.fs dp).2 } : StoreProcess).Proper clientID serverURI dataDir ∧
      ({ p with fs := (clearUnix p.fs dp).2 } : StoreProcess).store clientID serverURI dataDir =
        p.store clientID serverURI dataDir := by
  induction dp generalizing p with
  | nil =>
      exact ⟨rfl, h, rfl⟩
  | cons d_name dp ih =>
      rw [clearUnix]
      have hrest : ∀ d_name ∈ dp, '/' ∉ d_name := by
        intro d_name hmem
        exact hdp d_name (List.mem_cons_of_mem _ hmem)
      split_ifs with hreg
      · have hname := hdp d_name List.mem_cons_self
        have hunlink : (p.fs.unlink d_name).files =
            Function.update p.fs.files (Directories.join '/' p.fs.cwd d_name) none := by
          rw [FileSystem.unlink, resolve_name p.fs hname]
          rfl
        have hkept : ({ p with fs := p.fs.unlink d_name } : StoreProcess).Proper
            clientID serverURI dataDir := by
          refine ⟨h.handle, ?_, h.cwd⟩
          rw [hunlink]
          exact h.records.update_elsewhere hname h.cwd
        have hstore : ({ p with fs := p.fs.unlink d_name } : StoreProcess).store
            clientID serverURI dataDir = p.store clientID serverURI dataDir := by
          rw [StoreProcess.store, hunlink]
          exact Directories.records_update_elsewhere sep_notMem_extension hname h.cwd
        obtain ⟨hrc, hproper, hsame⟩ := ih hkept hrest
        exact ⟨hrc, hproper, hsame.trans hstore⟩
      · exact ih h hrest

/-- A file whose length an `int` holds is read completely. -/
theorem toInt_length_iff
    (value : Bytes) :
    toInt value.length = value.length ↔ value.length < 2147483648 := by
  rw [toInt, Int.bmod_def]
  omega

theorem call_pstopen
    (h : p.Proper clientID serverURI dataDir) :
    ∃ p', p.call clientID serverURI dataDir .pstopen = (.code 0, p') ∧
      p'.Proper clientID serverURI dataDir ∧
      p'.store clientID serverURI dataDir = p.store clientID serverURI dataDir := by
  obtain ⟨hrc, hhandle, hfiles, hcwd⟩ := pstopen_spec p.fs clientID serverURI dataDir
  generalize hopen : pstopen p.fs clientID serverURI dataDir = result at *
  obtain ⟨rc, handle, fs⟩ := result
  dsimp only at hrc hhandle hfiles hcwd
  subst hrc hhandle
  have hresolve : ∀ path, fs.resolve path = p.fs.resolve path := by
    intro path
    rw [FileSystem.resolve, FileSystem.resolve, hcwd]
  refine ⟨⟨fs, some (clientDirectory clientID serverURI dataDir)⟩, ?_, ⟨rfl, ?_, ?_⟩, ?_⟩
  · rw [StoreProcess.call, hopen]
  · dsimp only
    rw [hfiles, hresolve]
    exact h.records
  · dsimp only
    rw [hcwd, hresolve]
    exact h.cwd
  · rw [StoreProcess.store, hfiles, hresolve]
    rfl

theorem call_pstput
    {key : Key}
    (h : p.Proper clientID serverURI dataDir)
    (hkey : IsKey key) (buffers : List Bytes) :
    ∃ p', p.call clientID serverURI dataDir (.pstput key buffers) = (.code 0, p') ∧
      p'.Proper clientID serverURI dataDir ∧
      p'.store clientID serverURI dataDir =
        (p.store clientID serverURI dataDir).put key buffers.flatten := by
  have hall : WriteFaults.none.WritesAll 0 buffers := by
    intro j buffer _ n hn
    cases hn
  rcases pstput_spec .none p.fs (clientDirectory clientID serverURI dataDir) key buffers with
    ⟨hopen, _⟩ | ⟨_, hshort, _⟩ | ⟨_, _, hput⟩
  · cases hopen
  · exact absurd hall hshort
  · obtain ⟨hproper, hstore⟩ := @StoreProcess.Proper.update _ _ _ _ _
      (p.fs.write _ buffers.flatten) _ h hkey rfl rfl
    refine ⟨_, ?_, hproper, hstore⟩
    simp only [StoreProcess.call, h.handle, hput]
    rfl

theorem call_pstremove
    {key : Key}
    (h : p.Proper clientID serverURI dataDir)
    (hkey : IsKey key) :
    ∃ p', p.call clientID serverURI dataDir (.pstremove key) = (.code 0, p') ∧
      p'.Proper clientID serverURI dataDir ∧
      p'.store clientID serverURI dataDir = (p.store clientID serverURI dataDir).remove key := by
  obtain ⟨hproper, hstore⟩ := @StoreProcess.Proper.update _ _ _ _ _
    (p.fs.unlink _) _ h hkey rfl rfl
  refine ⟨_, ?_, hproper, hstore⟩
  simp only [StoreProcess.call, h.handle, pstremove, filename_eq]

theorem call_pstget_absent
    {key : Key}
    (h : p.Proper clientID serverURI dataDir)
    (hkey : IsKey key)
    (hvalue : p.store clientID serverURI dataDir key = none) :
    p.call clientID serverURI dataDir (.pstget key) = (.value PERSISTENCE_ERROR none, p) := by
  simp only [StoreProcess.call, h.handle, pstget, filename_eq, content_record hkey, hvalue]

/-- A value is returned with what an `int` holds of its length. -/
theorem call_pstget_present
    {key : Key} {value : Bytes}
    (h : p.Proper clientID serverURI dataDir)
    (hkey : IsKey key)
    (hvalue : p.store clientID serverURI dataDir key = some value) :
    p.call clientID serverURI dataDir (.pstget key) =
      (.value (if toInt value.length ≠ value.length then PERSISTENCE_ERROR else 0)
        (some (value, toInt value.length)), p) := by
  simp only [StoreProcess.call, h.handle, pstget, filename_eq, content_record hkey, hvalue]

theorem call_pstcontainskey
    {key : Key} {dp : List Path}
    (h : p.Proper clientID serverURI dataDir)
    (hdp : p.Reads clientID serverURI dataDir dp) :
    (p.store clientID serverURI dataDir key ≠ none ∧
      p.call clientID serverURI dataDir (.pstcontainskey key dp) = (.code 0, p)) ∨
    (p.store clientID serverURI dataDir key = none ∧
      p.call clientID serverURI dataDir (.pstcontainskey key dp) =
        (.code PERSISTENCE_ERROR, p)) := by
  have hmem := (regular_enumerates h hdp).mem_iff key
  simp only [StoreProcess.call, h.handle, pstcontainskey, containskeyUnix_eq]
  by_cases hpresent : p.store clientID serverURI dataDir key = none
  · exact .inr ⟨hpresent, by rw [if_neg (fun hin => hmem.mp hin hpresent)]⟩
  · exact .inl ⟨hpresent, by rw [if_pos (hmem.mpr hpresent)]⟩

/-- The keys that were counted are those that are copied. -/
theorem call_pstkeys
    {dp dp' : List Path}
    (h : p.Proper clientID serverURI dataDir)
    (hdp : p.Reads clientID serverURI dataDir dp)
    (hdp' : p.Reads clientID serverURI dataDir dp') :
    ∃ ks, (p.store clientID serverURI dataDir).Enumerates ks ∧
      p.call clientID serverURI dataDir (.pstkeys dp dp') = (.keys 0 ks ks.length, p) := by
  have hcounted := regular_enumerates h hdp
  have hcopied := regular_enumerates h hdp'
  have hcount := hcounted.length_eq hcopied
  rw [List.length_map] at hcount
  simp only [StoreProcess.call, h.handle, pstkeys, keysUnix]
  by_cases hnone : (regular p.fs (clientDirectory clientID serverURI dataDir) dp).length = 0
  · rw [List.eq_nil_of_length_eq_zero hnone] at hcounted ⊢
    exact ⟨[], hcounted, rfl⟩
  · refine ⟨_, hcopied, ?_⟩
    rw [if_pos hnone, ← hcount]

/-- No record is removed. -/
theorem call_pstclear
    {dp : List Path}
    (h : p.Proper clientID serverURI dataDir)
    (hdp : p.Reads clientID serverURI dataDir dp) :
    ∃ p', p.call clientID serverURI dataDir (.pstclear dp) = (.code 0, p') ∧
      p'.Proper clientID serverURI dataDir ∧
      p'.store clientID serverURI dataDir = p.store clientID serverURI dataDir := by
  obtain ⟨hrc, hproper, hstore⟩ := clearUnix_spec h hdp.isName
  refine ⟨_, ?_, hproper, hstore⟩
  simp only [StoreProcess.call, h.handle, pstclear, hrc]

/-- The store is empty where it is cleared, and the value is no longer than an `int` says. -/
def Operation.Served (m : Store) : Operation → Prop
  | .pstget key => ∀ value, m key = some value → value.length < 2147483648
  | .pstclear _ => m = ExactMap.empty
  | _ => True

/-- A call answers as a map does exactly where it is served. -/
theorem StoreProcess.Proper.step
    {e : Operation × Answer}
    (h : p.Proper clientID serverURI dataDir)
    (hstep : StoreStep clientID serverURI dataDir p e p') :
    p'.Proper clientID serverURI dataDir ∧
      (Answers (p.store clientID serverURI dataDir) (e.1.request, e.2)
        (p'.store clientID serverURI dataDir) ↔
        e.1.Served (p.store clientID serverURI dataDir)) := by
  obtain ⟨operation, answer⟩ := e
  obtain ⟨hvalid, hcall⟩ := hstep
  dsimp only at hvalid hcall ⊢
  cases operation with
  | pstopen =>
      obtain ⟨_, heq, hproper, hstore⟩ := call_pstopen h
      obtain ⟨rfl, rfl⟩ := Prod.mk.inj (heq.symm.trans hcall)
      rw [hstore]
      exact ⟨hproper, iff_of_true (.open _) trivial⟩
  | pstput key buffers =>
      obtain ⟨_, heq, hproper, hstore⟩ := call_pstput h hvalid buffers
      obtain ⟨rfl, rfl⟩ := Prod.mk.inj (heq.symm.trans hcall)
      rw [hstore]
      exact ⟨hproper, iff_of_true (.put _ key buffers.flatten) trivial⟩
  | pstget key =>
      cases hvalue : p.store clientID serverURI dataDir key with
      | none =>
          have heq := call_pstget_absent h hvalid hvalue
          obtain ⟨rfl, rfl⟩ := Prod.mk.inj (heq.symm.trans hcall)
          refine ⟨h, iff_of_true (.getAbsent _ key hvalue) ?_⟩
          intro value hsome
          rw [hvalue] at hsome
          cases hsome
      | some value =>
          have heq := call_pstget_present h hvalid hvalue
          obtain ⟨rfl, rfl⟩ := Prod.mk.inj (heq.symm.trans hcall)
          refine ⟨h, ?_⟩
          have hserved : Operation.Served (p.store clientID serverURI dataDir) (.pstget key) ↔
              value.length < 2147483648 := by
            simp [Operation.Served, hvalue]
          rw [hserved, ← toInt_length_iff]
          constructor
          · intro hanswers
            by_contra hlong
            rw [if_pos hlong] at hanswers
            cases hanswers
          · intro hfits
            rw [if_neg (not_not.mpr hfits), hfits]
            exact .get _ key value hvalue
  | pstremove key =>
      obtain ⟨_, heq, hproper, hstore⟩ := call_pstremove h hvalid
      obtain ⟨rfl, rfl⟩ := Prod.mk.inj (heq.symm.trans hcall)
      rw [hstore]
      exact ⟨hproper, iff_of_true (.remove _ key) trivial⟩
  | pstcontainskey key dp =>
      rcases @call_pstcontainskey _ _ _ _ key _ h hvalid.2 with ⟨hpresent, heq⟩ | ⟨habsent, heq⟩
      · obtain ⟨rfl, rfl⟩ := Prod.mk.inj (heq.symm.trans hcall)
        exact ⟨h, iff_of_true (.containskey _ key hpresent) trivial⟩
      · obtain ⟨rfl, rfl⟩ := Prod.mk.inj (heq.symm.trans hcall)
        exact ⟨h, iff_of_true (.containskeyAbsent _ key habsent) trivial⟩
  | pstkeys dp dp' =>
      obtain ⟨ks, hkeys, heq⟩ := call_pstkeys h hvalid.1 hvalid.2
      obtain ⟨rfl, rfl⟩ := Prod.mk.inj (heq.symm.trans hcall)
      exact ⟨h, iff_of_true (.keys _ ks hkeys) trivial⟩
  | pstclear dp =>
      obtain ⟨_, heq, hproper, hstore⟩ := call_pstclear h hvalid
      obtain ⟨rfl, rfl⟩ := Prod.mk.inj (heq.symm.trans hcall)
      refine ⟨hproper, ?_⟩
      rw [hstore]
      constructor
      · exact Answers.clear_empty
      · intro hempty
        rw [Operation.Served] at hempty
        rw [hempty]
        exact .clear _

end Steps

/-! ### Runs -/

section Runs

variable {clientID serverURI dataDir : List Char} {fs : FileSystem} {p' : StoreProcess}
  {tr : List (Transition StoreProcess (Operation × Answer))}

theorem opened_proper
    (hrecords : Directories.OnlyRecords '/' MESSAGE_FILENAME_EXTENSION fs.files
      (fs.resolve (clientDirectory clientID serverURI dataDir)))
    (hcwd : fs.cwd ≠ fs.resolve (clientDirectory clientID serverURI dataDir)) :
    (opened fs clientID serverURI dataDir).Proper clientID serverURI dataDir := by
  have hproper : ({ fs, handle := some (clientDirectory clientID serverURI dataDir) } :
      StoreProcess).Proper clientID serverURI dataDir := ⟨rfl, hrecords, hcwd⟩
  obtain ⟨p, hcall, hopened, _⟩ := call_pstopen hproper
  have hsame := congrArg Prod.snd hcall
  rw [show p = opened fs clientID serverURI dataDir from hsame.symm] at hopened
  exact hopened

/-- A call as a request to the store of the client. -/
def storeTransition (clientID serverURI dataDir : List Char)
    (x : Transition StoreProcess (Operation × Answer)) :
    Transition Store (Request × Answer) :=
  ⟨x.pre.store clientID serverURI dataDir, (x.event.1.request, x.event.2),
    x.post.store clientID serverURI dataDir⟩

/--
The calls of a process, with the directory of the store different from its working
directory, are those of a map from keys to bytes if and only if the store is cleared
only when it is empty, and no value is read whose length is not an `int`.
-/
theorem answers_iff
    (hrecords : Directories.OnlyRecords '/' MESSAGE_FILENAME_EXTENSION fs.files
      (fs.resolve (clientDirectory clientID serverURI dataDir)))
    (hcwd : fs.cwd ≠ fs.resolve (clientDirectory clientID serverURI dataDir))
    (hrun : Runs (StoreStep clientID serverURI dataDir)
      (opened fs clientID serverURI dataDir) tr p') :
    Runs Answers ((opened fs clientID serverURI dataDir).store clientID serverURI dataDir)
        (tr.map (storeTransition clientID serverURI dataDir))
        (p'.store clientID serverURI dataDir) ↔
      ∀ x ∈ tr, x.event.1.Served (x.pre.store clientID serverURI dataDir) := by
  have hproper := hrun.invariant (fun p e p' (h : p.Proper clientID serverURI dataDir) hstep =>
    (h.step hstep).1) (opened_proper hrecords hcwd)
  have hsteps : ∀ x ∈ tr,
      (Answers (x.pre.store clientID serverURI dataDir) (x.event.1.request, x.event.2)
          (x.post.store clientID serverURI dataDir) ↔
        x.event.1.Served (x.pre.store clientID serverURI dataDir)) := by
    intro x hx
    exact ((hproper.1 x hx).1.step (hrun.step_of_mem x hx)).2
  refine (hrun.map_iff (fun p => p.store clientID serverURI dataDir)
    (fun e => (e.1.request, e.2))).trans ?_
  exact forall₂_congr hsteps

/-- A run of calls, each with the answer that it gets. -/
def calls (clientID serverURI dataDir : List Char) :
    StoreProcess → List Operation → List (Transition StoreProcess (Operation × Answer))
  | _, [] => []
  | p, operation :: operations =>
      let (answer, p') := p.call clientID serverURI dataDir operation
      ⟨p, (operation, answer), p'⟩ :: calls clientID serverURI dataDir p' operations

end Runs

/-- The store `/d/c-h-1` of a process that works in `/w`. -/
def storeProcess : StoreProcess :=
  opened ⟨ExactMap.empty, [], "/w".toList⟩ ['c'] "h:1".toList "/d".toList

/-- The same with one record. -/
def recordProcess : StoreProcess :=
  (storeProcess.call ['c'] "h:1".toList "/d".toList (.pstput "s-1".toList [[48], [2]])).2

def recordEntries : List Path := [['.'], ['.', '.'], "s-1.msg".toList]

theorem recordEntries_read :
    recordProcess.Reads ['c'] "h:1".toList "/d".toList recordEntries := by
  refine ⟨by decide, by decide, ?_⟩
  intro name hname hfile
  have hfiles : recordProcess.fs.files = (ExactMap.empty : ExactMap Path Bytes).put
      (Directories.join '/' (recordProcess.fs.resolve
        (clientDirectory ['c'] "h:1".toList "/d".toList)) "s-1.msg".toList) [48, 2] := rfl
  by_cases hpath : Directories.join '/' (recordProcess.fs.resolve
      (clientDirectory ['c'] "h:1".toList "/d".toList)) name =
    Directories.join '/' (recordProcess.fs.resolve
      (clientDirectory ['c'] "h:1".toList "/d".toList)) "s-1.msg".toList
  · rw [((Directories.join_inj hname (by decide)).mp hpath).2]
    decide
  · rw [hfiles, ExactMap.put_of_ne _ _ hpath] at hfile
    exact absurd rfl hfile

theorem answers_iff_record :
    Runs Answers (storeProcess.store ['c'] "h:1".toList "/d".toList)
      ((calls ['c'] "h:1".toList "/d".toList storeProcess
        [.pstput "s-1".toList [[48], [2]], .pstkeys recordEntries recordEntries,
          .pstget "s-1".toList]).map (storeTransition ['c'] "h:1".toList "/d".toList))
      (recordProcess.store ['c'] "h:1".toList "/d".toList) := by
  have hkey : IsKey "s-1".toList := ⟨by decide, by decide⟩
  have hrun : Runs (StoreStep ['c'] "h:1".toList "/d".toList) storeProcess
      (calls ['c'] "h:1".toList "/d".toList storeProcess
        [.pstput "s-1".toList [[48], [2]], .pstkeys recordEntries recordEntries,
          .pstget "s-1".toList]) recordProcess :=
    .cons ⟨hkey, rfl⟩ (.cons ⟨⟨recordEntries_read, recordEntries_read⟩, rfl⟩
      (.cons ⟨hkey, rfl⟩ (.nil _)))
  refine (answers_iff ?_ (by decide) hrun).mpr ?_
  · intro name _ hfile
    exact absurd rfl hfile
  · intro x hx
    simp only [calls, List.mem_cons, List.not_mem_nil, or_false] at hx
    rcases hx with rfl | rfl | rfl
    · trivial
    · trivial
    · intro value hvalue
      have hrecord : recordProcess.store ['c'] "h:1".toList "/d".toList "s-1".toList =
          some [48, 2] := by decide
      obtain rfl := Option.some.inj (hvalue.symm.trans hrecord)
      decide

/-- After it was cleared the store still has its record. -/
theorem cleared_not_answers :
    ∃ (tr : List (Transition StoreProcess (Operation × Answer))) (p' : StoreProcess),
      storeProcess.Proper ['c'] "h:1".toList "/d".toList ∧
      Runs (StoreStep ['c'] "h:1".toList "/d".toList) storeProcess tr p' ∧
      tr.map (·.event.1) = [.pstput "s-1".toList [[48], [2]], .pstclear recordEntries,
        .pstget "s-1".toList] ∧
      tr.map (·.event.2) = [.code 0, .code 0, .value 0 (some ([48, 2], 2))] ∧
      ¬ Runs Answers (storeProcess.store ['c'] "h:1".toList "/d".toList)
        (tr.map (storeTransition ['c'] "h:1".toList "/d".toList))
        (p'.store ['c'] "h:1".toList "/d".toList) := by
  have hkey : IsKey "s-1".toList := ⟨by decide, by decide⟩
  refine ⟨calls ['c'] "h:1".toList "/d".toList storeProcess
    [.pstput "s-1".toList [[48], [2]], .pstclear recordEntries, .pstget "s-1".toList], _,
    opened_proper (fun name _ hfile => absurd rfl hfile) (by decide),
    .cons ⟨hkey, rfl⟩ (.cons ⟨recordEntries_read, rfl⟩ (.cons ⟨hkey, rfl⟩ (.nil _))), rfl, by decide +kernel, ?_⟩
  intro hruns
  have hclear := hruns.step_of_mem _ (List.mem_cons_of_mem _ List.mem_cons_self)
  have hempty := hclear.clear_empty
  exact absurd (congrFun hempty "s-1".toList) (by decide)

end MQTTPersistenceDefault
end PahoMqtt
