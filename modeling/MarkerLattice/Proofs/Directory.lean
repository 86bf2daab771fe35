import Mathlib.Tactic
import MarkerLattice.Directory

/-! A file is found under the name that it was written to, and no other file changes. The
name is the end of every path to the file. -/
namespace MarkerLattice

namespace NameMap

variable {α : Type}

theorem lookup_cons_eq (name k : String) (a : α) (l : List (String × α)) :
    ((name, a) :: l).lookup k = if k = name then some a else l.lookup k := by
  rw [List.lookup_cons]
  cases same : k == name <;> simp_all

theorem lookup_insertEntry (name k : String) (a : α) (l : List (String × α)) :
    (insertEntry name a l).lookup k = if k = name then some a else l.lookup k := by
  induction l with
  | nil => rw [insertEntry, lookup_cons_eq]
  | cons e rest ih =>
    rw [insertEntry]
    split
    next => rw [lookup_cons_eq]
    next =>
      split
      next same =>
        rw [lookup_cons_eq, lookup_cons_eq, same]
        split <;> rfl
      next other =>
        rw [lookup_cons_eq, lookup_cons_eq, ih]
        split
        next first => rw [if_neg (first ▸ Ne.symm other)]
        next => rfl

theorem get?_insert (m : NameMap α) (name k : String) (a : α) :
    (m.insert name a).get? k = if k = name then some a else m.get? k :=
  lookup_insertEntry name k a m.entries

end NameMap

namespace Directory

variable {d d' : Directory} {path name : String} {contents : Bytes}

/-- The name of the file of the directory that a path leads to. -/
def fileName? (path : String) : Option String :=
  match steps path with
  | [name] => if endsInSlash path || name = ".." then none else some name
  | _ => none

theorem of_fileName? (h : fileName? path = some name) :
    steps path = [name] ∧ endsInSlash path = false := by
  rw [fileName?] at h
  split at h
  next other one =>
    split at h
    · cases h
    next inside =>
      cases h
      rw [Bool.or_eq_true, not_or, Bool.not_eq_true] at inside
      exact ⟨one, inside.1⟩
  · cases h

theorem find_eq (h : fileName? path = some name) (d : Directory) : d.find path =
    match d.files.get? name with
    | none => .error .notFound
    | some contents => .ok (.file contents) := by
  obtain ⟨one, plain⟩ := of_fileName? h
  simp only [find, one, plain]
  cases d.files.get? name <;> rfl

theorem find_insert (h : fileName? path = some name) (m : NameMap Bytes) (k : String)
    (contents : Bytes) : find ⟨m.insert k contents⟩ path =
      if name = k then .ok (.file contents) else find ⟨m⟩ path := by
  rw [find_eq h, find_eq h, NameMap.get?_insert]
  by_cases same : name = k
  · simp only [if_pos same]
  · simp only [if_neg same]

theorem write_eq (h : fileName? path = some name) (d : Directory) (contents : Bytes) :
    d.write path contents = .ok ⟨d.files.insert name contents⟩ := by
  obtain ⟨one, plain⟩ := of_fileName? h
  simp [write, one, plain]

theorem of_write (h : d.write path contents = .ok d') : ∃ name, steps path = [name] ∧
    endsInSlash path = false ∧ d' = ⟨d.files.insert name contents⟩ := by
  rw [write] at h
  split at h
  · cases h
  next name one =>
    split at h
    · cases h
    next plain => exact ⟨name, one, Bool.eq_false_of_not_eq_true plain, (Except.ok.inj h).symm⟩
  · cases h

theorem find_of_write (h : d.write path contents = .ok d') :
    d'.find path = .ok (.file contents) := by
  obtain ⟨name, one, plain, rfl⟩ := of_write h
  simp [find, one, plain, NameMap.get?_insert]

/-- The file of a path has the contents afterwards, and every other file is as it was. -/
def Receives (d : Directory) (path : String) (contents : Bytes) (d' : Directory) : Prop :=
  ∃ name, steps path = [name] ∧
    ∀ n, d'.files.get? n = if n = name then some contents else d.files.get? n

theorem receives_of_write (h : d.write path contents = .ok d') : d.Receives path contents d' := by
  obtain ⟨name, one, -, rfl⟩ := of_write h
  exact ⟨name, one, fun n => NameMap.get?_insert d.files name n contents⟩

theorem intercalate_slash_eq (parts : List (List Char)) (filled : parts ≠ []) :
    ∃ front, List.intercalate ['/'] parts = front ++ parts.getLast filled ∧
      (front = [] ∨ front.getLast? = some '/') := by
  induction parts with
  | nil => exact absurd rfl filled
  | cons p parts ih =>
    cases parts with
    | nil => exact ⟨[], by simp [List.intercalate], .inl rfl⟩
    | cons q parts =>
      obtain ⟨front, joined, slash⟩ := ih (by simp)
      refine ⟨p ++ '/' :: front, ?_, .inr ?_⟩
      · simp [List.intercalate_cons_cons, joined]
      · rw [List.getLast?_append_of_ne_nil _ (by simp), List.getLast?_cons]
        rcases slash with rfl | slash <;> simp [*]

theorem toList_of_fileName? (h : fileName? path = some name) :
    ∃ front, path.toList = front ++ name.toList ∧ (front = [] ∨ front.getLast? = some '/') := by
  obtain ⟨one, plain⟩ := of_fileName? h
  have filled : path.toList.splitOn '/' ≠ [] := List.splitOnP_ne_nil _ _
  obtain ⟨front, joined, slash⟩ := intercalate_slash_eq _ filled
  rw [List.intercalate_splitOn] at joined
  obtain ⟨last, hl⟩ : ∃ last, last = (path.toList.splitOn '/').getLast filled := ⟨_, rfl⟩
  rw [← hl] at joined
  have some : last ≠ [] := by
    rintro rfl
    rcases slash with rfl | slash
    · simp [steps, joined] at one
    · simp [endsInSlash, joined, slash] at plain
  have parts : path.toList.splitOn '/' = (path.toList.splitOn '/').dropLast ++ [last] := by
    rw [hl, List.dropLast_append_getLast]
  rw [steps, List.map_eq_singleton_iff] at one
  obtain ⟨cs, kept, rfl⟩ := one
  obtain ⟨before, rest⟩ := kept ▸ List.dropWhile_suffix isDots
    (l := (path.toList.splitOn '/').filter (· ≠ []))
  have same : cs = last := by
    rw [parts, List.filter_append, List.filter_cons_of_pos (by simpa using some)] at rest
    exact (List.append_inj' rest rfl).2 |> List.singleton_inj.mp
  exact ⟨front, by rw [joined, same, String.toList_ofList], slash⟩

end Directory

end MarkerLattice
