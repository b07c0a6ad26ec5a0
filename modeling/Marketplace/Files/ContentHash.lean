import Mathlib.Data.List.DropRight
import Marketplace.PasswordHashes

namespace Marketplace.Files

def isSlash (c : Char) : Bool := c = '/'

def isDot (c : Char) : Bool := c = '.'

structure ParsedPath where
  name : List Char
  ext : List Char
  deriving DecidableEq, Repr

namespace ParsedPath

-- `path.parse` of Node on POSIX
def parse (filename : String) : ParsedPath :=
  let trimmed := filename.toList.rdropWhile isSlash
  let base := trimmed.rtakeWhile fun c => !isSlash c
  let stem := (base.rdropWhile fun c => !isDot c).dropLast
  -- only "/.." itself is split at its last dot
  if stem = [] ∨ (base = ['.', '.'] ∧ trimmed ≠ ['/', '.', '.']) then ⟨base, []⟩
  else ⟨stem, '.' :: base.rtakeWhile fun c => !isDot c⟩

end ParsedPath

abbrev Content := List UInt8

structure Sha256 where
  digest : Content → List ℕ
  length_eq : ∀ content, (digest content).length = 32
  bytes : ∀ content, ∀ byte ∈ digest content, byte < 256

variable (sha256 : Sha256)

-- `createHash('sha256').update(content).digest('hex')`
def Sha256.hexDigest (content : Content) : List Char := toHex (sha256.digest content)

def Sha256.shortHash (content : Content) : List Char := (sha256.hexDigest content).take 8

def createContentHashedName (filename : String) (content : Content) : String :=
  let parsed := ParsedPath.parse filename
  String.ofList (parsed.name ++ '.' :: (sha256.shortHash content ++ parsed.ext))

section Lists

variable {α : Type} {p : α → Bool} {xs ys : List α} {x : α}

theorem rtakeWhile_append_cons (hx : ¬p x) (hys : ∀ y ∈ ys, p y) : (xs ++ x :: ys).rtakeWhile p = ys := by
  induction ys using List.reverseRecOn with
  | nil => exact List.rtakeWhile_concat_neg p xs x hx
  | append_singleton ys y ih =>
    have hy : p y := hys y (by simp)
    have hinit := ih fun y hy => hys y (by simp [hy])
    have happend : xs ++ x :: (ys ++ [y]) = (xs ++ x :: ys) ++ [y] := by simp
    rw [happend, List.rtakeWhile_concat_pos p _ y hy, hinit]

theorem append_cons_inj {xs' ys' : List α} (hys : x ∉ ys) (hys' : x ∉ ys') (h : xs ++ x :: ys = xs' ++ x :: ys') :
    xs = xs' ∧ ys = ys' := by
  classical
  have hlast {zs us : List α} (hus : x ∉ us) : (zs ++ x :: us).rtakeWhile (fun y => !decide (y = x)) = us := by
    refine rtakeWhile_append_cons (by simp) fun y hy => ?_
    have hne : y ≠ x := fun heq => hus (heq ▸ hy)
    simp [hne]
  have htail : ys = ys' := (hlast hys).symm.trans ((congrArg _ h).trans (hlast hys'))
  subst htail
  exact ⟨List.append_cancel_right h, rfl⟩

end Lists

namespace ParsedPath

/-- A base name without an extension has a dot only at its start, or is `..`. -/
def Plain (name : List Char) : Prop := '.' ∉ name.tail ∨ name = ['.', '.']

/-- What is left of a filename: a name with no extension, or one split at its last dot. -/
inductive Split : ParsedPath → Prop
  | whole {name : List Char} (hname : Plain name) : Split ⟨name, []⟩
  | atDot {name ext : List Char} (hname : name ≠ []) (hext : '.' ∉ ext) : Split ⟨name, '.' :: ext⟩

theorem dot_notMem_rtakeWhile {base : List Char} : '.' ∉ base.rtakeWhile fun c => !isDot c := by
  intro h
  have hdot := List.mem_rtakeWhile_imp h
  simp [isDot] at hdot

theorem plain_of_stem {base : List Char} (h : (base.rdropWhile fun c => !isDot c).dropLast = []) :
    '.' ∉ base.tail := by
  have hbase := List.rdropWhile_append_rtakeWhile (p := fun c => !isDot c) (l := base)
  have hext : '.' ∉ base.rtakeWhile fun c => !isDot c := dot_notMem_rtakeWhile
  generalize base.rdropWhile (fun c => !isDot c) = stem at h hbase
  cases stem with
  | nil =>
    rw [← hbase]
    exact fun hmem => hext (List.mem_of_mem_tail hmem)
  | cons c rest =>
    cases rest with
    | nil =>
      rw [← hbase]
      exact hext
    | cons d rest => simp at h

theorem parse_split (filename : String) : Split (parse filename) := by
  unfold parse
  dsimp only
  split
  · rename_i h
    rcases h with hstem | ⟨hdots, -⟩
    · exact .whole (.inl (plain_of_stem hstem))
    · exact .whole (.inr hdots)
  · rename_i h
    exact .atDot (fun hstem => h (.inl hstem)) dot_notMem_rtakeWhile

theorem slash_notMem_parse (filename : String) : '/' ∉ (parse filename).name ∧ '/' ∉ (parse filename).ext := by
  have hbase : '/' ∉ (filename.toList.rdropWhile isSlash).rtakeWhile fun c => !isSlash c := by
    intro h
    have hslash := List.mem_rtakeWhile_imp h
    simp [isSlash] at hslash
  unfold parse
  dsimp only
  generalize List.rtakeWhile _ (List.rdropWhile isSlash filename.toList) = base at hbase ⊢
  split
  · exact ⟨hbase, by simp⟩
  · refine ⟨fun h => hbase ?_, fun h => hbase ?_⟩
    · exact (List.rdropWhile_prefix _ _).subset (List.dropLast_subset _ h)
    · have hext : '/' ∈ base.rtakeWhile fun c => !isDot c := by simpa using h
      exact (List.rtakeWhile_suffix _ _).subset hext

end ParsedPath

section Hash

variable {sha256} {content content' : Content} {filename filename' : String}

theorem length_shortHash : (sha256.shortHash content).length = 8 := by
  simp [Sha256.shortHash, Sha256.hexDigest, length_toHex, sha256.length_eq]

theorem notMem_shortHash {c : Char} (hc : hexDigit c = none) : c ∉ sha256.shortHash content :=
  fun h => not_mem_toHex (sha256.bytes content) hc (List.mem_of_mem_take h)

theorem dot_notMem_shortHash : '.' ∉ sha256.shortHash content := notMem_shortHash (by decide)

theorem plain_ne_hashed {name : List Char} (hplain : ParsedPath.Plain name) {name' : List Char} (hname' : name' ≠ []) :
    name ≠ name' ++ '.' :: sha256.shortHash content := by
  rintro rfl
  obtain ⟨c, rest, rfl⟩ := List.exists_cons_of_ne_nil hname'
  rcases hplain with hdot | hdots
  · simp at hdot
  · have hlength := congrArg List.length hdots
    simp [length_shortHash] at hlength

theorem shortHash_eq {parsed parsed' : ParsedPath} (hsplit : parsed.Split) (hsplit' : parsed'.Split)
    (h : parsed.name ++ '.' :: (sha256.shortHash content ++ parsed.ext) =
      parsed'.name ++ '.' :: (sha256.shortHash content' ++ parsed'.ext)) :
    sha256.shortHash content = sha256.shortHash content' := by
  have hmixed {name name' ext : List Char} {c c' : Content} (hplain : ParsedPath.Plain name) (hname' : name' ≠ [])
      (hext : '.' ∉ ext) (h : name ++ '.' :: sha256.shortHash c = name' ++ '.' :: (sha256.shortHash c' ++ '.' :: ext)) :
      False := by
    have hassoc : name ++ '.' :: sha256.shortHash c = (name' ++ '.' :: sha256.shortHash c') ++ '.' :: ext := by simp [h]
    exact plain_ne_hashed hplain hname' (append_cons_inj dot_notMem_shortHash hext hassoc).1
  cases hsplit with
  | whole hname =>
    cases hsplit' with
    | whole hname' =>
      simp only [List.append_nil] at h
      exact (append_cons_inj dot_notMem_shortHash dot_notMem_shortHash h).2
    | atDot hname' hext' => exact (hmixed hname hname' hext' (by simpa using h)).elim
  | @atDot name ext hname hext =>
    cases hsplit' with
    | whole hname' => exact (hmixed hname' hname hext (by simpa using h.symm)).elim
    | @atDot name' ext' hname' hext' =>
      have hassoc : (name ++ '.' :: sha256.shortHash content) ++ '.' :: ext =
          (name' ++ '.' :: sha256.shortHash content') ++ '.' :: ext' := by simpa using h
      exact (append_cons_inj dot_notMem_shortHash dot_notMem_shortHash (append_cons_inj hext hext' hassoc).1).2

theorem shortHash_eq_of_name (h : createContentHashedName sha256 filename content =
    createContentHashedName sha256 filename' content') : sha256.shortHash content = sha256.shortHash content' :=
  shortHash_eq (ParsedPath.parse_split filename) (ParsedPath.parse_split filename') (String.ofList_injective h)

theorem slash_notMem_name : '/' ∉ (createContentHashedName sha256 filename content).toList := by
  obtain ⟨hname, hext⟩ := ParsedPath.slash_notMem_parse filename
  have hhash : '/' ∉ sha256.shortHash content := notMem_shortHash (by decide)
  simp [createContentHashedName, hname, hext, hhash]

def assetKey (sha256 : Sha256) (directory filename : String) (content : Content) : String :=
  directory ++ "/" ++ createContentHashedName sha256 filename content

theorem shortHash_eq_of_key {directory directory' : String}
    (h : assetKey sha256 directory filename content = assetKey sha256 directory' filename' content') :
    sha256.shortHash content = sha256.shortHash content' := by
  have hkey : directory.toList ++ '/' :: (createContentHashedName sha256 filename content).toList =
      directory'.toList ++ '/' :: (createContentHashedName sha256 filename' content').toList := by
    simpa [assetKey] using congrArg String.toList h
  exact shortHash_eq_of_name (String.toList_injective (append_cons_inj slash_notMem_name slash_notMem_name hkey).2)

end Hash

end Marketplace.Files
