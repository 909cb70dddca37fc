import PahoMqtt.Lib.Directories
import PahoMqtt.Persistence

/-!
# The persistence in files

MQTTPersistenceDefault.c over a file system that is an exact map from absolute paths
to the bytes of regular files.  A client has a directory, and a record is the file
`<key>.msg` in it.  Memory can be had, directories can be made and opened, and what
`fopen`, `fwrite` and `fclose` do when a record is written is a parameter.
-/

namespace PahoMqtt
namespace MQTTPersistenceDefault

open MQTTPersistence Lib

abbrev Path := List Char

def MESSAGE_FILENAME_EXTENSION : List Char := ['.', 'm', 's', 'g']

/-- The regular files, the directories that were made, and the working directory. -/
structure FileSystem where
  files : ExactMap Path Bytes
  directories : List Path
  cwd : Path

namespace FileSystem

/-- A path that is relative begins at the working directory. -/
def resolve (fs : FileSystem) (path : Path) : Path :=
  if path.head? = some '/' then path else Directories.join '/' fs.cwd path

/-- What `fopen(path, "rb")` opens. -/
def content (fs : FileSystem) (path : Path) : Option Bytes :=
  fs.files (fs.resolve path)

/-- `lstat(path, &stat_info) == 0 && S_ISREG(stat_info.st_mode)` -/
def isReg (fs : FileSystem) (path : Path) : Bool :=
  (fs.content path).isSome

def write (fs : FileSystem) (path : Path) (content : Bytes) : FileSystem :=
  { fs with files := fs.files.put (fs.resolve path) content }

/-- `unlink`, and `remove` of a file; where there is none, ENOENT is no error. -/
def unlink (fs : FileSystem) (path : Path) : FileSystem :=
  { fs with files := fs.files.remove (fs.resolve path) }

end FileSystem

/-! ### Opening -/

def pstmkdir (fs : FileSystem) (pPathname : Path) : Int × FileSystem :=
  if pPathname ∈ fs.directories then (0, fs)
  else (0, { fs with directories := fs.directories ++ [pPathname] })

/-- What `strtok_r` finds with the delimiters of `pstopen`. -/
def tokens (path : Path) : List Path :=
  (path.splitOnP (fun c => c = '\\' || c = '/')).filter (· ≠ [])

/-- The directories that the path names, from the outermost. -/
def mkdirs (fs : FileSystem) (pCrtDirName : Path) : List Path → Int × FileSystem
  | [] => pstmkdir fs pCrtDirName
  | pToken :: pTokens =>
      let (rc, fs) := pstmkdir fs pCrtDirName
      if rc = 0 then mkdirs fs (pCrtDirName ++ '/' :: pToken) pTokens else (rc, fs)

/-- The directory of a client at a server; a colon is not allowed in every file system. -/
def clientDirectory (clientID serverURI dataDir : List Char) : Path :=
  let perserverURI := serverURI.map (fun c => if c = ':' then '-' else c)
  dataDir ++ '/' :: (clientID ++ '-' :: perserverURI)

/-- `pstopen`: the return code, the handle and what was made. -/
def pstopen (fs : FileSystem) (clientID serverURI dataDir : List Char) :
    Int × Option Path × FileSystem :=
  let perserverURI := serverURI.map (fun c => if c = ':' then '-' else c)
  let alloclen := dataDir.length + clientID.length + perserverURI.length + 3
  let clientDir := clientDirectory clientID serverURI dataDir
  if clientDir.length ≥ alloclen then (PERSISTENCE_ERROR, none, fs)
  else
    let root := (clientDir.take 1).filter (fun c => c = '/' || c = '\\')
    match tokens clientDir with
    -- there is a dash in the path, and so a token
    | [] => (0, some clientDir, fs)
    | pToken :: pTokens =>
        let (rc, fs) := mkdirs fs (root ++ pToken) pTokens
        (rc, some clientDir, fs)

/-! ### Records -/

/-- The path of a record, in the buffer that is allocated for it. -/
def filename (clientDir : Path) (key : Key) : Option Path :=
  let alloclen := clientDir.length + key.length + MESSAGE_FILENAME_EXTENSION.length + 2
  let file := clientDir ++ '/' :: (key ++ MESSAGE_FILENAME_EXTENSION)
  if file.length ≥ alloclen then none else some file

def pstremove (fs : FileSystem) (handle : Option Path) (key : Key) : Int × FileSystem :=
  match handle with
  | none => (PERSISTENCE_ERROR, fs)
  | some clientDir =>
      match filename clientDir key with
      | none => (PERSISTENCE_ERROR, fs)
      | some file => (0, fs.unlink file)

/-- What fails while a record is written. -/
structure WriteFaults where
  fopen : Bool
  /-- How many bytes of the buffer with this number are written; all for `none`. -/
  fwrite : Nat → Option Nat
  /-- `fclose` fails, and has brought so many bytes into the file. -/
  fclose : Option Nat

/-- Every file operation succeeds. -/
def WriteFaults.none : WriteFaults where
  fopen := false
  fwrite := fun _ => .none
  fclose := .none

/-- The part of a buffer that `fwrite` writes. -/
def WriteFaults.written (faults : WriteFaults) (i : Nat) (buffer : Bytes) : Bytes :=
  match faults.fwrite i with
  | .none => buffer
  | .some n => buffer.take n

/-- What is in the file when it is closed. -/
def WriteFaults.flushed (faults : WriteFaults) (stream : Bytes) : Bytes :=
  match faults.fclose with
  | .none => stream
  | .some n => stream.take n

/--
The loop of `pstput` from the buffer `i` on: what is written to the file, `bytesTotal`
and `bytesWritten`.  The lengths are `int`s, whose sum a `size_t` holds.
-/
def fwriteLoop (faults : WriteFaults) (i : Nat) : List Bytes → Bytes × Nat × Nat
  | [] => ([], 0, 0)
  | buffer :: buffers =>
      let (stream, bytesTotal, bytesWritten) := fwriteLoop faults (i + 1) buffers
      (faults.written i buffer ++ stream, buffer.length + bytesTotal,
        (faults.written i buffer).length + bytesWritten)

def pstput (faults : WriteFaults) (fs : FileSystem) (handle : Option Path) (key : Key)
    (buffers : List Bytes) : Int × FileSystem :=
  match handle with
  | none => (PERSISTENCE_ERROR, fs)
  | some clientDir =>
      match filename clientDir key with
      | none => (PERSISTENCE_ERROR, fs)
      | some file =>
          if faults.fopen then (PERSISTENCE_ERROR, fs)
          else
            let (stream, bytesTotal, bytesWritten) := fwriteLoop faults 0 buffers
            let fs := fs.write file (faults.flushed stream)
            -- the result of `fclose` is not looked at
            if bytesWritten ≠ bytesTotal then (PERSISTENCE_ERROR, (pstremove fs handle key).2)
            else (0, fs)

/-- `pstget`: the return code, and the buffer with its length. -/
def pstget (fs : FileSystem) (handle : Option Path) (key : Key) : Int × Option (Bytes × Int) :=
  match handle with
  | none => (PERSISTENCE_ERROR, none)
  | some clientDir =>
      match filename clientDir key with
      | none => (PERSISTENCE_ERROR, none)
      | some file =>
          match fs.content file with
          | none => (PERSISTENCE_ERROR, none)
          | some buf =>
              let fileLen := buf.length
              -- a negative `int` is larger than any file as an `unsigned long`
              let bytesRead := toInt fileLen
              (if bytesRead ≠ fileLen then PERSISTENCE_ERROR else 0, some (buf, bytesRead))

/-! ### Directories, by what `readdir` returns one after the other -/

/-- The key of a file: its name up to the extension. -/
def fileKey (d_name : Path) : Key :=
  Directories.cut MESSAGE_FILENAME_EXTENSION d_name

def containskeyUnix (fs : FileSystem) (dirname : Path) (key : Key) : List Path → Int
  | [] => PERSISTENCE_ERROR
  | d_name :: dp =>
      if fs.isReg (dirname ++ '/' :: d_name) ∧ fileKey d_name = key then 0
      else containskeyUnix fs dirname key dp

def pstcontainskey (fs : FileSystem) (handle : Option Path) (key : Key) (dp : List Path) : Int :=
  match handle with
  | none => PERSISTENCE_ERROR
  | some clientDir => containskeyUnix fs clientDir key dp

/-- The names are those of `readdir`, and not the paths of the entries. -/
def clearUnix (fs : FileSystem) : List Path → Int × FileSystem
  | [] => (0, fs)
  | d_name :: dp => clearUnix (if fs.isReg d_name then fs.unlink d_name else fs) dp

def pstclear (fs : FileSystem) (handle : Option Path) (dp : List Path) : Int × FileSystem :=
  match handle with
  | none => (PERSISTENCE_ERROR, fs)
  | some _ => clearUnix fs dp

/-- The regular files among the entries. -/
def regular (fs : FileSystem) (dirname : Path) (dp : List Path) : List Path :=
  dp.filter (fun d_name => fs.isReg (dirname ++ '/' :: d_name))

/-- `keysUnix` reads the directory once to count the keys and once to copy them. -/
def keysUnix (fs : FileSystem) (dirname : Path) (dp dp' : List Path) : Int × List Key × Nat :=
  let nfkeys := (regular fs dirname dp).length
  let fkeys := if nfkeys ≠ 0 then (regular fs dirname dp').map fileKey else []
  (0, fkeys, nfkeys)

def pstkeys (fs : FileSystem) (handle : Option Path) (dp dp' : List Path) :
    Int × List Key × Nat :=
  match handle with
  | none => (PERSISTENCE_ERROR, [], 0)
  | some clientDir => keysUnix fs clientDir dp dp'

/-! ### Paths -/

/-- The buffer for a path is large enough. -/
theorem filename_eq
    (clientDir : Path) (key : Key) :
    filename clientDir key = some (clientDir ++ '/' :: (key ++ MESSAGE_FILENAME_EXTENSION)) := by
  unfold filename
  dsimp only
  rw [if_neg]
  simp only [List.length_append, List.length_cons]
  omega

theorem resolve_join
    (fs : FileSystem) {dir : Path} (hdir : dir ≠ []) (name : Path) :
    fs.resolve (dir ++ '/' :: name) = Directories.join '/' (fs.resolve dir) name := by
  cases dir with
  | nil =>
      exact absurd rfl hdir
  | cons c dir =>
      by_cases hroot : c = '/'
      · simp [FileSystem.resolve, Directories.join, hroot]
      · simp [FileSystem.resolve, Directories.join, hroot]

/-- A name alone is in the working directory. -/
theorem resolve_name
    (fs : FileSystem) {name : Path} (hname : '/' ∉ name) :
    fs.resolve name = Directories.join '/' fs.cwd name := by
  refine if_neg ?_
  intro hhead
  cases name with
  | nil =>
      cases hhead
  | cons c name =>
      rw [List.head?_cons, Option.some.injEq] at hhead
      exact hname (hhead ▸ List.mem_cons_self)

/-- The directory of a client is no empty path. -/
theorem clientDirectory_ne_nil
    (clientID serverURI dataDir : List Char) :
    clientDirectory clientID serverURI dataDir ≠ [] := by
  unfold clientDirectory
  simp

theorem mkdirs_spec
    (fs : FileSystem) (pCrtDirName : Path) (pTokens : List Path) :
    (mkdirs fs pCrtDirName pTokens).1 = 0 ∧
      (mkdirs fs pCrtDirName pTokens).2.files = fs.files ∧
      (mkdirs fs pCrtDirName pTokens).2.cwd = fs.cwd := by
  induction pTokens generalizing fs pCrtDirName with
  | nil =>
      rw [mkdirs, pstmkdir]
      split_ifs
      · exact ⟨rfl, rfl, rfl⟩
      · exact ⟨rfl, rfl, rfl⟩
  | cons pToken pTokens ih =>
      rw [mkdirs, pstmkdir]
      split_ifs
      · exact ih fs _
      · exact ih _ _

/-- A client's directory is opened, and no file changes. -/
theorem pstopen_spec
    (fs : FileSystem) (clientID serverURI dataDir : List Char) :
    (pstopen fs clientID serverURI dataDir).1 = 0 ∧
      (pstopen fs clientID serverURI dataDir).2.1 =
        some (clientDirectory clientID serverURI dataDir) ∧
      (pstopen fs clientID serverURI dataDir).2.2.files = fs.files ∧
      (pstopen fs clientID serverURI dataDir).2.2.cwd = fs.cwd := by
  unfold pstopen
  dsimp only
  rw [if_neg (by
    simp only [clientDirectory, List.length_append, List.length_cons, List.length_map]
    omega)]
  split
  · exact ⟨rfl, rfl, rfl, rfl⟩
  · next pToken pTokens _ =>
      have hmade := mkdirs_spec fs ((clientDirectory clientID serverURI dataDir).take 1 |>.filter
        (fun c => c = '/' || c = '\\') |>.append pToken) pTokens
      exact ⟨hmade.1, rfl, hmade.2⟩

/-! ### Writing a record -/

/-- No buffer from the number `i` on is written in part. -/
def WriteFaults.WritesAll (faults : WriteFaults) (i : Nat) (buffers : List Bytes) : Prop :=
  ∀ (j : Nat) (buffer : Bytes), buffers[j]? = some buffer →
    ∀ n, faults.fwrite (i + j) = some n → buffer.length ≤ n

/-- Closing the file loses nothing. -/
def WriteFaults.FlushesAll (faults : WriteFaults) (buffers : List Bytes) : Prop :=
  ∀ n, faults.fclose = some n → buffers.flatten.length ≤ n

theorem WriteFaults.writesAll_cons
    (faults : WriteFaults) (i : Nat) (buffer : Bytes) (buffers : List Bytes) :
    faults.WritesAll i (buffer :: buffers) ↔
      (∀ n, faults.fwrite i = some n → buffer.length ≤ n) ∧ faults.WritesAll (i + 1) buffers := by
  constructor
  · intro h
    constructor
    · exact h 0 buffer rfl
    · intro j buffer' hj n hn
      exact h (j + 1) buffer' hj n (by rwa [Nat.add_assoc, Nat.add_comm 1] at hn)
  · rintro ⟨hfirst, hrest⟩ j buffer' hj n hn
    cases j with
    | zero =>
        obtain rfl := Option.some.inj hj
        exact hfirst n hn
    | succ j =>
        exact hrest j buffer' hj n (by rwa [Nat.add_assoc, Nat.add_comm 1])

theorem WriteFaults.written_length
    (faults : WriteFaults) (i : Nat) (buffer : Bytes) :
    (faults.written i buffer).length ≤ buffer.length := by
  rw [written]
  split
  · exact le_rfl
  · exact List.length_take_le' _ _

theorem WriteFaults.written_all_iff
    (faults : WriteFaults) (i : Nat) (buffer : Bytes) :
    (faults.written i buffer).length = buffer.length ↔
      ∀ n, faults.fwrite i = some n → buffer.length ≤ n := by
  rw [written]
  cases hfault : faults.fwrite i with
  | none =>
      simp
  | some n =>
      simp

theorem WriteFaults.written_eq
    {faults : WriteFaults} {i : Nat} {buffer : Bytes}
    (h : ∀ n, faults.fwrite i = some n → buffer.length ≤ n) :
    faults.written i buffer = buffer := by
  rw [written]
  split
  · rfl
  · next n hfault =>
      exact List.take_of_length_le (h n hfault)

/-- The numbers that the loop compares are the lengths of the buffers and of the file. -/
theorem fwriteLoop_spec
    (faults : WriteFaults) (i : Nat) (buffers : List Bytes) :
    (fwriteLoop faults i buffers).2.1 = buffers.flatten.length ∧
      (fwriteLoop faults i buffers).2.2 = (fwriteLoop faults i buffers).1.length ∧
      (fwriteLoop faults i buffers).1.length ≤ buffers.flatten.length := by
  induction buffers generalizing i with
  | nil =>
      exact ⟨rfl, rfl, le_rfl⟩
  | cons buffer buffers ih =>
      obtain ⟨htotal, hwritten, hle⟩ := ih (i + 1)
      have hfirst := faults.written_length i buffer
      simp only [fwriteLoop, List.flatten_cons, List.length_append]
      exact ⟨by rw [htotal], by rw [hwritten], by omega⟩

/-- The numbers are the same only where every buffer is written. -/
theorem fwriteLoop_full_iff
    (faults : WriteFaults) (i : Nat) (buffers : List Bytes) :
    (fwriteLoop faults i buffers).2.2 = (fwriteLoop faults i buffers).2.1 ↔
      faults.WritesAll i buffers := by
  induction buffers generalizing i with
  | nil =>
      refine iff_of_true rfl ?_
      intro j buffer hj
      cases hj
  | cons buffer buffers ih =>
      obtain ⟨htotal, hwritten, hle⟩ := fwriteLoop_spec faults (i + 1) buffers
      have hfirst := faults.written_length i buffer
      rw [faults.writesAll_cons, ← faults.written_all_iff, ← ih]
      simp only [fwriteLoop]
      rw [hwritten, htotal]
      omega

theorem fwriteLoop_stream
    {faults : WriteFaults} {i : Nat} {buffers : List Bytes}
    (h : faults.WritesAll i buffers) :
    (fwriteLoop faults i buffers).1 = buffers.flatten := by
  induction buffers generalizing i with
  | nil =>
      rfl
  | cons buffer buffers ih =>
      obtain ⟨hfirst, hrest⟩ := (faults.writesAll_cons i buffer buffers).mp h
      simp only [fwriteLoop, WriteFaults.written_eq hfirst, ih hrest, List.flatten_cons]

theorem WriteFaults.flushed_eq_iff
    (faults : WriteFaults) (buffers : List Bytes) :
    faults.flushed buffers.flatten = buffers.flatten ↔ faults.FlushesAll buffers := by
  rw [flushed, FlushesAll]
  cases hfault : faults.fclose with
  | none =>
      simp
  | some n =>
      simp only [Option.some.injEq, forall_eq', List.take_eq_self_iff]

/-- The outcomes of `pstput`, by what fails. -/
theorem pstput_spec
    (faults : WriteFaults) (fs : FileSystem) (clientDir : Path) (key : Key)
    (buffers : List Bytes) :
    let file := clientDir ++ '/' :: (key ++ MESSAGE_FILENAME_EXTENSION)
    (faults.fopen = true ∧
      pstput faults fs (some clientDir) key buffers = (PERSISTENCE_ERROR, fs)) ∨
    (faults.fopen = false ∧ ¬ faults.WritesAll 0 buffers ∧
      pstput faults fs (some clientDir) key buffers = (PERSISTENCE_ERROR, fs.unlink file)) ∨
    (faults.fopen = false ∧ faults.WritesAll 0 buffers ∧
      pstput faults fs (some clientDir) key buffers =
        (0, fs.write file (faults.flushed buffers.flatten))) := by
  intro file
  have hfile : filename clientDir key = some file := filename_eq clientDir key
  cases hopen : faults.fopen with
  | true =>
      refine .inl ⟨rfl, ?_⟩
      simp only [pstput, hfile, hopen, if_true]
  | false =>
      have hfull := fwriteLoop_full_iff faults 0 buffers
      by_cases hall : faults.WritesAll 0 buffers
      · refine .inr (.inr ⟨rfl, hall, ?_⟩)
        simp only [pstput, hfile, hopen, Bool.false_eq_true, if_false, hfull.mpr hall,
          ne_eq, not_true_eq_false, fwriteLoop_stream hall]
      · refine .inr (.inl ⟨rfl, hall, ?_⟩)
        simp only [pstput, hfile, hopen, Bool.false_eq_true, if_false, ne_eq,
          mt hfull.mp hall, not_false_eq_true, if_true, pstremove]
        simp [FileSystem.unlink, FileSystem.write, FileSystem.resolve, ExactMap.remove,
          ExactMap.put]

/-- The record of the key is complete, or the call fails and nothing has changed. -/
def AllOrNothing (faults : WriteFaults) (fs : FileSystem) (clientDir : Path) (key : Key)
    (buffers : List Bytes) : Prop :=
  let (rc, fs') := pstput faults fs (some clientDir) key buffers
  (rc = 0 ∧
      fs' = fs.write (clientDir ++ '/' :: (key ++ MESSAGE_FILENAME_EXTENSION)) buffers.flatten) ∨
    (rc ≠ 0 ∧ fs' = fs)

theorem unlink_eq_iff
    (fs : FileSystem) (path : Path) :
    fs.unlink path = fs ↔ fs.content path = none := by
  constructor
  · intro h
    have hfile := congrArg (fun fs' : FileSystem => fs'.files (fs.resolve path)) h
    simpa [FileSystem.unlink, FileSystem.content] using hfile.symm
  · intro h
    have hsame : fs.files.remove (fs.resolve path) = fs.files := by
      rw [ExactMap.remove, ← h, FileSystem.content, Function.update_eq_self]
    rw [FileSystem.unlink, hsame]

theorem write_inj
    (fs : FileSystem) (path : Path) (bytes bytes' : Bytes) :
    fs.write path bytes = fs.write path bytes' ↔ bytes = bytes' := by
  constructor
  · intro h
    have hfile := congrArg (fun fs' : FileSystem => fs'.files (fs.resolve path)) h
    simpa [FileSystem.write] using hfile
  · rintro rfl
    rfl

/--
A record is written completely or the call fails without an effect if and only if the
file is not opened, or every buffer reaches it, or one is written in part where the
key had no record before.
-/
theorem pstput_allOrNothing_iff
    (faults : WriteFaults) (fs : FileSystem) (clientDir : Path) (key : Key)
    (buffers : List Bytes) :
    AllOrNothing faults fs clientDir key buffers ↔
      faults.fopen = true ∨
      (faults.WritesAll 0 buffers ∧ faults.FlushesAll buffers) ∨
      (¬ faults.WritesAll 0 buffers ∧
        fs.content (clientDir ++ '/' :: (key ++ MESSAGE_FILENAME_EXTENSION)) = none) := by
  rw [AllOrNothing]
  rcases pstput_spec faults fs clientDir key buffers with
    ⟨hopen, hput⟩ | ⟨hopen, hshort, hput⟩ | ⟨hopen, hall, hput⟩
  · rw [hput]
    simp [hopen, PERSISTENCE_ERROR]
  · rw [hput]
    simp [hopen, hshort, PERSISTENCE_ERROR, unlink_eq_iff]
  · rw [hput]
    simp [hopen, hall, write_inj, faults.flushed_eq_iff]

/-- The second write of a record that exists stops after one byte, and the record is lost. -/
theorem shortWrite_not_allOrNothing :
    let fs : FileSystem := ⟨ExactMap.empty.put "/d/s-1.msg".toList [48, 2], [], "/".toList⟩
    let faults : WriteFaults := ⟨false, fun _ => some 1, none⟩
    ¬ AllOrNothing faults fs "/d".toList "s-1".toList [[48, 2, 0]] ∧
      (pstput faults fs (some "/d".toList) "s-1".toList [[48, 2, 0]]).1 = PERSISTENCE_ERROR ∧
      fs.content "/d/s-1.msg".toList = some [48, 2] ∧
      (pstput faults fs (some "/d".toList) "s-1".toList [[48, 2, 0]]).2.content
        "/d/s-1.msg".toList = none := by
  refine ⟨?_, by decide, by decide, by decide⟩
  rintro (⟨hrc, _⟩ | ⟨_, hsame⟩)
  · exact absurd hrc (by decide)
  · have hfile := congrArg (fun fs : FileSystem => fs.content "/d/s-1.msg".toList) hsame
    exact absurd hfile (by decide)

end MQTTPersistenceDefault
end PahoMqtt
