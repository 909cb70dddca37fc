import Mathlib.Data.List.Infix
import PahoMqtt.Lib.ExactMap

/-!
# Records in a directory

Files are an exact map from paths.  A directory holds a record for each key, in a
file whose name is the key with an extension; an enumeration of the directory may
list other entries as well, in any order.  Names have no separator, and keys do not
contain the extension, so that a path determines the directory and the key.
-/

namespace PahoMqtt
namespace Lib

universe u v

namespace Directories

variable {α : Type u} {β : Type v} [DecidableEq α]

/-- The path of a name in a directory. -/
def join (sep : α) (dir name : List α) : List α :=
  dir ++ sep :: name

omit [DecidableEq α] in
theorem dir_eq_of_join_eq
    {sep : α} {dir dir' name name' : List α}
    (hname : sep ∉ name)
    (hname' : sep ∉ name')
    (h : join sep dir name = join sep dir' name') :
    dir = dir' := by
  rcases List.append_eq_append_iff.mp h with ⟨l, rfl, hl⟩ | ⟨l, rfl, hl⟩
  · cases l with
    | nil =>
        exact (List.append_nil dir).symm
    | cons c l =>
        obtain ⟨_, rfl⟩ := List.cons.inj hl
        exact absurd (List.mem_append_right _ List.mem_cons_self) hname
  · cases l with
    | nil =>
        exact List.append_nil dir'
    | cons c l =>
        obtain ⟨_, rfl⟩ := List.cons.inj hl
        exact absurd (List.mem_append_right _ List.mem_cons_self) hname'

omit [DecidableEq α] in
/-- A path determines the directory and the name. -/
theorem join_inj
    {sep : α} {dir dir' name name' : List α}
    (hname : sep ∉ name)
    (hname' : sep ∉ name') :
    join sep dir name = join sep dir' name' ↔ dir = dir' ∧ name = name' := by
  constructor
  · intro h
    obtain rfl := dir_eq_of_join_eq hname hname' h
    exact ⟨rfl, (List.cons.inj (List.append_cancel_left h)).2⟩
  · rintro ⟨rfl, rfl⟩
    rfl

/-! ### Extensions -/

/-- What stands before the first occurrence of `ext`. -/
def cut (ext : List α) : List α → List α
  | [] => []
  | c :: s => if ext <+: c :: s then [] else c :: cut ext s

omit [DecidableEq α] in
/-- No occurrence of an extension begins in front of it and ends inside. -/
theorem not_prefix_append
    {first : α} {rest s : List α}
    (hfirst : first ∉ rest)
    (hs : ¬ first :: rest <:+: s)
    (hne : s ≠ []) :
    ¬ first :: rest <+: s ++ first :: rest := by
  intro h
  rcases le_total (first :: rest).length s.length with hle | hle
  · exact hs (List.prefix_of_prefix_length_le h (List.prefix_append _ _) hle).isInfix
  · obtain ⟨t, ht⟩ := List.prefix_of_prefix_length_le (List.prefix_append s _) h hle
    cases s with
    | nil =>
        exact hne rfl
    | cons c s =>
        obtain ⟨rfl, hrest⟩ := List.cons.inj ht
        change s ++ t = rest at hrest
        -- the extension would begin once more, inside itself
        have hinside : s ++ t <+: s ++ c :: rest := by
          rw [hrest]
          exact (List.cons_prefix_cons.mp h).2
        cases t with
        | nil =>
            rw [List.append_nil] at hrest
            exact hs (by rw [hrest])
        | cons d t =>
            obtain ⟨rfl, _⟩ :=
              List.cons_prefix_cons.mp ((List.prefix_append_right_inj s).mp hinside)
            exact hfirst (hrest ▸ List.mem_append_right _ List.mem_cons_self)

/-- Cutting off an extension that does not occur before. -/
theorem cut_append
    {first : α} {rest s : List α}
    (hfirst : first ∉ rest)
    (hs : ¬ first :: rest <:+: s) :
    cut (first :: rest) (s ++ first :: rest) = s := by
  induction s with
  | nil =>
      simp [cut]
  | cons c s ih =>
      have hno : ¬ first :: rest <+: c :: (s ++ first :: rest) :=
        not_prefix_append hfirst hs (by simp)
      rw [List.cons_append, cut, if_neg hno, ih]
      intro hin
      exact hs (hin.trans (List.suffix_cons c s).isInfix)

/-! ### The records of a directory -/

/-- A name without separator from which the key is read back. -/
structure IsKey (sep : α) (ext key : List α) : Prop where
  isName : sep ∉ key
  noExt : ¬ ext <:+: key

/-- The record of a key. -/
def recordPath (sep : α) (ext dir key : List α) : List α :=
  join sep dir (key ++ ext)

/-- What a directory holds, by the keys. -/
def records (sep : α) (ext : List α) (files : ExactMap (List α) β) (dir : List α) :
    ExactMap (List α) β :=
  fun key => if sep ∈ key ∨ ext <:+: key then none else files (recordPath sep ext dir key)

/-- The files of a directory are records. -/
def OnlyRecords (sep : α) (ext : List α) (files : ExactMap (List α) β) (dir : List α) : Prop :=
  ∀ name, sep ∉ name → files (join sep dir name) ≠ none →
    ∃ key, IsKey sep ext key ∧ name = key ++ ext

/-- An enumeration of the entries of a directory, of which some may be no files. -/
structure Lists (sep : α) (files : ExactMap (List α) β) (dir : List α) (names : List (List α)) :
    Prop where
  nodup : names.Nodup
  isName : ∀ name ∈ names, sep ∉ name
  complete : ∀ name, sep ∉ name → files (join sep dir name) ≠ none → name ∈ names

variable {sep : α} {ext : List α} {files : ExactMap (List α) β} {dir : List α}

theorem records_of_isKey
    {key : List α}
    (hkey : IsKey sep ext key) :
    records sep ext files dir key = files (recordPath sep ext dir key) :=
  if_neg (not_or.mpr ⟨hkey.isName, hkey.noExt⟩)

theorem records_of_not_isKey
    {key : List α}
    (hkey : ¬ IsKey sep ext key) :
    records sep ext files dir key = none := by
  refine if_pos ?_
  by_contra hno
  obtain ⟨hsep, hext⟩ := not_or.mp hno
  exact hkey ⟨hsep, hext⟩

omit [DecidableEq α] in
theorem IsKey.sep_append
    {key : List α}
    (hkey : IsKey sep ext key)
    (hext : sep ∉ ext) :
    sep ∉ key ++ ext := by
  intro hmem
  rcases List.mem_append.mp hmem with h | h
  · exact hkey.isName h
  · exact hext h

omit [DecidableEq α] in
/-- The records of two keys are two files. -/
theorem recordPath_inj
    {dir dir' key key' : List α}
    (hext : sep ∉ ext)
    (hkey : IsKey sep ext key)
    (hkey' : IsKey sep ext key') :
    recordPath sep ext dir key = recordPath sep ext dir' key' ↔ dir = dir' ∧ key = key' := by
  rw [recordPath, recordPath, join_inj (hkey.sep_append hext) (hkey'.sep_append hext),
    List.append_left_inj]

/-- A change of the file of a key is a change of the record of the key. -/
theorem records_update
    {key : List α} {content : Option β}
    (hext : sep ∉ ext)
    (hkey : IsKey sep ext key) :
    records sep ext (Function.update files (recordPath sep ext dir key) content) dir =
      Function.update (records sep ext files dir) key content := by
  funext key'
  by_cases hkey' : IsKey sep ext key'
  · rw [records_of_isKey hkey', Function.update_apply, Function.update_apply,
      records_of_isKey hkey']
    simp only [recordPath_inj hext hkey' hkey, true_and]
  · have hne : key' ≠ key := by
      rintro rfl
      exact hkey' hkey
    rw [Function.update_of_ne hne, records_of_not_isKey hkey', records_of_not_isKey hkey']

/-- A change in another directory changes no record. -/
theorem records_update_elsewhere
    {dir' name : List α} {content : Option β}
    (hext : sep ∉ ext)
    (hname : sep ∉ name)
    (hdir : dir' ≠ dir) :
    records sep ext (Function.update files (join sep dir' name) content) dir =
      records sep ext files dir := by
  funext key
  by_cases hkey : IsKey sep ext key
  · rw [records_of_isKey hkey, records_of_isKey hkey, Function.update_of_ne]
    intro hpath
    exact hdir ((join_inj (hkey.sep_append hext) hname).mp hpath).1.symm
  · rw [records_of_not_isKey hkey, records_of_not_isKey hkey]

theorem OnlyRecords.update
    {key : List α} {content : Option β}
    (h : OnlyRecords sep ext files dir)
    (hext : sep ∉ ext)
    (hkey : IsKey sep ext key) :
    OnlyRecords sep ext (Function.update files (recordPath sep ext dir key) content) dir := by
  intro name hname hfile
  by_cases hpath : join sep dir name = recordPath sep ext dir key
  · exact ⟨key, hkey, ((join_inj hname (hkey.sep_append hext)).mp hpath).2⟩
  · rw [Function.update_of_ne hpath] at hfile
    exact h name hname hfile

theorem OnlyRecords.update_elsewhere
    {dir' name : List α} {content : Option β}
    (h : OnlyRecords sep ext files dir)
    (hname : sep ∉ name)
    (hdir : dir' ≠ dir) :
    OnlyRecords sep ext (Function.update files (join sep dir' name) content) dir := by
  intro name' hname' hfile
  rw [Function.update_of_ne] at hfile
  · exact h name' hname' hfile
  · intro hpath
    exact hdir ((join_inj hname' hname).mp hpath).1.symm

/-- The names of the files, without the extension, enumerate the records. -/
theorem Lists.enumerates
    {first : α} {rest : List α} {names : List (List α)}
    (h : Lists sep files dir names)
    (honly : OnlyRecords sep (first :: rest) files dir)
    (hsep : sep ∉ first :: rest)
    (hfirst : first ∉ rest) :
    (records sep (first :: rest) files dir).Enumerates
      ((names.filter (fun name => (files (join sep dir name)).isSome)).map
        (cut (first :: rest))) := by
  have hrecord : ∀ name ∈ names.filter (fun name => (files (join sep dir name)).isSome),
      ∃ key, IsKey sep (first :: rest) key ∧ name = key ++ first :: rest := by
    intro name hname
    obtain ⟨hmem, hfile⟩ := List.mem_filter.mp hname
    exact honly name (h.isName name hmem) (Option.isSome_iff_ne_none.mp hfile)
  constructor
  · refine List.Nodup.map_on ?_ (h.nodup.filter _)
    intro name hname name' hname' hcut
    obtain ⟨key, hkey, rfl⟩ := hrecord name hname
    obtain ⟨key', hkey', rfl⟩ := hrecord name' hname'
    rw [cut_append hfirst hkey.noExt, cut_append hfirst hkey'.noExt] at hcut
    rw [hcut]
  · intro key
    constructor
    · intro hmem
      obtain ⟨name, hname, hcut⟩ := List.mem_map.mp hmem
      obtain ⟨key', hkey', rfl⟩ := hrecord name hname
      rw [cut_append hfirst hkey'.noExt] at hcut
      subst hcut
      rw [records_of_isKey hkey']
      exact Option.isSome_iff_ne_none.mp (List.mem_filter.mp hname).2
    · intro hpresent
      have hkey : IsKey sep (first :: rest) key := by
        by_contra hno
        exact hpresent (records_of_not_isKey hno)
      rw [records_of_isKey hkey] at hpresent
      refine List.mem_map.mpr ⟨key ++ first :: rest, List.mem_filter.mpr ⟨?_, ?_⟩,
        cut_append hfirst hkey.noExt⟩
      · exact h.complete _ (hkey.sep_append hsep) hpresent
      · exact Option.isSome_iff_ne_none.mpr hpresent

end Directories
end Lib
end PahoMqtt
