import Mathlib.Data.List.Basic

namespace Url

section Segments

/-- The spellings of a dot in a path, and of two. -/
def singleDots : List (List Char) := [['.'], ['%', '2', 'e'], ['%', '2', 'E']]

def doubleDots : List (List Char) := singleDots.flatMap fun first => singleDots.map fun second => first ++ second

def Regular (segment : List Char) : Prop := segment ∉ singleDots ∧ segment ∉ doubleDots

instance (segment : List Char) : Decidable (Regular segment) := inferInstanceAs (Decidable (_ ∧ _))

theorem regular_nil : Regular [] := by decide

/-- The path state of a URL parser at the end of a segment. -/
def appendSegment (path : List (List Char)) (segment : List Char) (isLast : Bool) : List (List Char) :=
  if segment ∈ doubleDots then path.dropLast ++ if isLast then [[]] else []
  else if segment ∈ singleDots then path ++ if isLast then [[]] else []
  else path ++ [segment]

def readSegments : List (List Char) → List (List Char) → List (List Char)
  | path, [] => path
  | path, segment :: rest => readSegments (appendSegment path segment rest.isEmpty) rest

variable {path segments : List (List Char)} {segment s : List Char} {isLast : Bool}

theorem appendSegment_regular (h : Regular segment) : appendSegment path segment isLast = path ++ [segment] := by
  rw [appendSegment, if_neg h.2, if_neg h.1]

theorem readSegments_regular (h : ∀ s ∈ segments, Regular s) : readSegments path segments = path ++ segments := by
  induction segments generalizing path with
  | nil => simp [readSegments]
  | cons segment rest ih =>
    have hrest := fun s hs => h s (List.mem_cons_of_mem _ hs)
    rw [readSegments, appendSegment_regular (h segment (List.mem_cons_self ..)), ih hrest]
    simp

theorem mem_appendSegment (h : s ∈ appendSegment path segment isLast) :
    s ∈ path ∨ s = [] ∨ s = segment ∧ Regular segment := by
  have hlast {kept : List (List Char)} (hkept : s ∈ kept → s ∈ path) (h : s ∈ kept ++ if isLast then [[]] else []) :
      s ∈ path ∨ s = [] := by
    rcases List.mem_append.mp h with hs | hs
    · exact .inl (hkept hs)
    · split at hs
      · exact .inr (List.mem_singleton.mp hs)
      · cases hs
  unfold appendSegment at h
  split at h
  · exact (hlast (fun hs => List.dropLast_subset _ hs) h).imp_right .inl
  · rename_i hdouble
    split at h
    · exact (hlast id h).imp_right .inl
    · rename_i hsingle
      rcases List.mem_append.mp h with hs | hs
      · exact .inl hs
      · exact .inr (.inr ⟨List.mem_singleton.mp hs, hsingle, hdouble⟩)

theorem mem_readSegments (h : s ∈ readSegments path segments) :
    s ∈ path ∨ s = [] ∨ s ∈ segments ∧ Regular s := by
  induction segments generalizing path with
  | nil => exact .inl h
  | cons segment rest ih =>
    rcases ih h with hs | hs | ⟨hs, hregular⟩
    · rcases mem_appendSegment hs with hs | hs | ⟨rfl, hregular⟩
      · exact .inl hs
      · exact .inr (.inl hs)
      · exact .inr (.inr ⟨List.mem_cons_self .., hregular⟩)
    · exact .inr (.inl hs)
    · exact .inr (.inr ⟨List.mem_cons_of_mem _ hs, hregular⟩)

theorem appendSegment_last : appendSegment path segment true ≠ [] := by
  unfold appendSegment
  split
  · simp
  · split <;> simp

theorem readSegments_ne_nil (h : segments ≠ []) : readSegments path segments ≠ [] := by
  induction segments generalizing path with
  | nil => exact absurd rfl h
  | cons segment rest ih =>
    cases rest with
    | nil => exact appendSegment_last
    | cons next rest => exact ih (by simp)

end Segments

section Targets

def serialize (segments : List (List Char)) : List Char := segments.flatMap fun segment => '/' :: segment

theorem serialize_cons {segment : List Char} {rest : List (List Char)} :
    serialize (segment :: rest) = '/' :: ['/'].intercalate (segment :: rest) := by
  induction rest generalizing segment with
  | nil => simp [serialize]
  | cons next rest ih =>
    have hcons : serialize (segment :: next :: rest) = '/' :: segment ++ serialize (next :: rest) := rfl
    rw [hcons, ih, List.intercalate_cons_cons]
    simp

/-- The characters that no URL parser changes or stops at, and the sign of an escape. -/
def isPathChar (c : Char) : Bool := c.isAlphanum || c ∈ ['-', '_', '.', '!', '~', '*', '\'', '(', ')', '%']

def IsPath (segments : List (List Char)) : Prop := ∀ segment ∈ segments, ∀ c ∈ segment, isPathChar c

/-- The path behind the host of a target that starts with two slashes. -/
def behindHost (segments : List (List Char)) : List (List Char) :=
  match (segments.dropWhile List.isEmpty).tail with
  | [] => [[]]
  | rest => rest

theorem mem_behindHost {segments : List (List Char)} {s : List Char} (h : s ∈ behindHost segments) :
    s = [] ∨ s ∈ segments := by
  unfold behindHost at h
  split at h
  · exact .inl (List.mem_singleton.mp h)
  · exact .inr ((List.dropWhile_suffix _).subset (List.mem_of_mem_tail h))

/-- `pathname` of a target that is read against an address. A target that starts with two slashes names
a host, which may be refused. -/
structure ReadsTargets (pathname : String → Option String) : Prop where
  path {segments : List (List Char)} (hpath : IsPath segments) (hsegments : segments ≠ [])
    (hfirst : segments.head? ≠ some [] ∨ segments = [[]]) : pathname (String.ofList (serialize segments)) =
      some (String.ofList (serialize (readSegments [] segments)))
  host {segments : List (List Char)} (hpath : IsPath ([] :: segments)) (hsegments : segments ≠ []) :
    pathname (String.ofList (serialize ([] :: segments))) = none ∨
      pathname (String.ofList (serialize ([] :: segments))) =
        some (String.ofList (serialize (readSegments [] (behindHost ([] :: segments)))))

-- a target that is no path is refused
def targetPathname (validHost : List Char → Bool) (target : String) : Option String :=
  match target.toList with
  | '/' :: text =>
    match text.splitOn '/' with
    | [] :: next :: rest =>
      if ((next :: rest).dropWhile List.isEmpty).head?.any validHost then
        some (String.ofList (serialize (readSegments [] (behindHost ([] :: next :: rest)))))
      else none
    | segments => some (String.ofList (serialize (readSegments [] segments)))
  | _ => none

theorem targetPathname_reads {validHost : List Char → Bool} : ReadsTargets (targetPathname validHost) := by
  have hsplit {segments : List (List Char)} (hpath : IsPath segments) (hsegments : segments ≠ []) :
      (['/'].intercalate segments).splitOn '/' = segments := by
    refine List.splitOn_intercalate _ (fun segment hsegment hslash => ?_) hsegments
    have hc := hpath segment hsegment '/' hslash
    exact absurd hc (by decide)
  refine ⟨fun {segments} hpath hsegments hfirst => ?_, fun {segments} hpath hsegments => ?_⟩
  · obtain ⟨segment, rest, rfl⟩ := List.exists_cons_of_ne_nil hsegments
    rw [serialize_cons, targetPathname, String.toList_ofList]
    simp only [hsplit hpath hsegments]
    split
    · rename_i heq
      cases heq
      simp at hfirst
    · rfl
  · obtain ⟨segment, rest, rfl⟩ := List.exists_cons_of_ne_nil hsegments
    rw [serialize_cons, targetPathname, String.toList_ofList]
    simp only [hsplit hpath (by simp)]
    by_cases hhost : ((segment :: rest).dropWhile List.isEmpty).head?.any validHost
    · exact .inr (if_pos hhost)
    · exact .inl (if_neg hhost)

end Targets

end Url
