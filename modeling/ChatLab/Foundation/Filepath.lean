import Mathlib.Data.List.Basic

/-!
# Lexical paths

Cleaning a slash-separated path drops empty and dot elements and lets a double
dot remove the element before it, or itself at the root. Joining a directory
and a plain file name appends the name to a stem that depends on the directory
alone, so that distinct names never meet.
-/

namespace Foundation.Filepath

/-- One more element on top of those kept so far, the last of them first. -/
def keep (rooted : Bool) (kept : List (List Char)) (element : List Char) : List (List Char) :=
  if element = [] ∨ element = ['.'] then kept
  else if element = ['.', '.'] then
    match kept with
    | [] => if rooted then [] else [element]
    | last :: rest => if last = ['.', '.'] then element :: kept else rest
  else element :: kept

def isRooted (path : List Char) : Bool := path.head? = some '/'

def clean (path : List Char) : List Char :=
  let kept := (path.splitOn '/').foldl (keep (isRooted path)) []
  let text := (if isRooted path then ['/'] else []) ++ ['/'].intercalate kept.reverse
  if text = [] then ['.'] else text

/-- Empty elements are left out. -/
def join (dir name : List Char) : List Char :=
  if dir = [] then (if name = [] then [] else clean name) else clean (dir ++ '/' :: name)

structure IsName (name : List Char) : Prop where
  plain : name ≠ [] ∧ name ≠ ['.'] ∧ name ≠ ['.', '.']
  noSlash : '/' ∉ name

theorem keep_name {name : List Char} (h : IsName name) (rooted : Bool) (kept : List (List Char)) :
    keep rooted kept name = name :: kept := by
  obtain ⟨hEmpty, hDot, hDots⟩ := h.plain
  unfold keep
  rw [if_neg (not_or.mpr ⟨hEmpty, hDot⟩), if_neg hDots]

theorem exists_intercalate_concat (sep : List Char) (l : List (List Char)) :
    ∃ stem, ∀ x, sep.intercalate (l ++ [x]) = stem ++ x := by
  induction l with
  | nil => exact ⟨[], fun x => by simp [List.intercalate]⟩
  | cons a l ih =>
    obtain ⟨stem, hStem⟩ := ih
    refine ⟨a ++ (sep ++ stem), ?_⟩
    intro x
    have hCons : sep.intercalate (a :: (l ++ [x])) = a ++ (sep ++ sep.intercalate (l ++ [x])) := by
      cases l with
      | nil => simp [List.intercalate]
      | cons b l => simp [List.intercalate]
    rw [List.cons_append, hCons, hStem]
    simp

theorem exists_clean_stem (rooted : Bool) (elements : List (List Char)) :
    ∃ stem, ∀ name path, IsName name → isRooted path = rooted →
      path.splitOn '/' = elements ++ [name] → clean path = stem ++ name := by
  obtain ⟨stem, hStem⟩ := exists_intercalate_concat ['/'] (elements.foldl (keep rooted) []).reverse
  refine ⟨(if rooted then ['/'] else []) ++ stem, ?_⟩
  intro name path hName hRooted hSplit
  have hKept : (path.splitOn '/').foldl (keep rooted) [] =
      name :: elements.foldl (keep rooted) [] := by
    rw [hSplit, List.foldl_append, List.foldl_cons, List.foldl_nil, keep_name hName]
  rw [clean, hRooted, hKept, List.reverse_cons, hStem]
  have hText : (if rooted then ['/'] else []) ++ (stem ++ name) ≠ [] := by
    simp [hName.plain.1]
  rw [if_neg hText, List.append_assoc]

theorem exists_join_stem (dir : List Char) :
    ∃ stem, ∀ name, IsName name → join dir name = stem ++ name := by
  cases dir with
  | nil =>
    obtain ⟨stem, hStem⟩ := exists_clean_stem false []
    refine ⟨stem, ?_⟩
    intro name hName
    rw [join, if_pos rfl, if_neg hName.plain.1]
    refine hStem name name hName ?_ (List.splitOn_eq_singleton hName.noSlash)
    cases name with
    | nil => rfl
    | cons c name =>
      have hFirst : c ≠ '/' := fun hEq => hName.noSlash (hEq ▸ List.mem_cons_self)
      simp [isRooted, hFirst]
  | cons c dir =>
    obtain ⟨stem, hStem⟩ := exists_clean_stem (isRooted (c :: dir)) ((c :: dir).splitOn '/')
    refine ⟨stem, ?_⟩
    intro name hName
    rw [join, if_neg (List.cons_ne_nil c dir)]
    refine hStem name _ hName rfl ?_
    rw [List.splitOn_append_cons_self, List.splitOn_eq_singleton hName.noSlash]

theorem join_injective (dir : List Char) {x y : List Char} (hx : IsName x) (hy : IsName y)
    (h : join dir x = join dir y) : x = y := by
  obtain ⟨stem, hStem⟩ := exists_join_stem dir
  rw [hStem x hx, hStem y hy] at h
  exact List.append_cancel_left h

end Foundation.Filepath
