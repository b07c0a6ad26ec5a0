import Marketplace.Cdn.CoherentCache
import Marketplace.Url.Path

namespace Marketplace.Cdn

open Concurrent Files Url

section Encoding

def isUnescaped (c : Char) : Bool := c.isAlphanum || c ∈ ['-', '_', '.', '!', '~', '*', '\'', '(', ')']

def escapeOctet (octet : UInt8) : List Char :=
  ['%', (Nat.digitChar (octet.toNat / 16)).toUpper, (Nat.digitChar (octet.toNat % 16)).toUpper]

def encodeURIComponent (text : List Char) : List Char :=
  text.flatMap fun c => if isUnescaped c then [c] else (String.utf8EncodeChar c).flatMap escapeOctet

theorem hexDigit_toUpper : ∀ n < 16, hexDigit (Nat.digitChar n).toUpper = some n := by decide

theorem isPathChar_toUpper : ∀ n < 16, isPathChar (Nat.digitChar n).toUpper := by decide

variable {text : List Char}

theorem unescape_escapeOctet (octet : UInt8) (rest : List Char) :
    unescape (escapeOctet octet ++ rest) = (unescape rest).map (octet :: ·) := by
  have hbound := octet.toNat_lt
  have hhigh := hexDigit_toUpper (octet.toNat / 16) (by omega)
  have hlow := hexDigit_toUpper (octet.toNat % 16) (by omega)
  have hoctet : UInt8.ofNat (16 * (octet.toNat / 16) + octet.toNat % 16) = octet := by
    rw [Nat.div_add_mod, UInt8.ofNat_toNat]
  simp only [escapeOctet, List.cons_append, List.nil_append, unescape, hhigh, hlow, Option.bind_eq_bind,
    Option.bind_some, hoctet]
  cases unescape rest <;> rfl

theorem unescape_octets (octets : List UInt8) (rest : List Char) :
    unescape (octets.flatMap escapeOctet ++ rest) = (unescape rest).map (octets ++ ·) := by
  induction octets with
  | nil => cases h : unescape rest <;> simp [h]
  | cons octet octets ih =>
    rw [List.flatMap_cons, List.append_assoc, unescape_escapeOctet, ih]
    cases unescape rest <;> rfl

theorem unescape_char {c : Char} (hc : c ≠ '%') (rest : List Char) :
    unescape (c :: rest) = (unescape rest).map (String.utf8EncodeChar c ++ ·) := by
  rw [unescape.eq_def]
  split
  · simp_all
  · simp_all
  · simp_all
  · rename_i h
    cases h
    cases unescape rest <;> rfl

theorem unescape_encodeURIComponent :
    unescape (encodeURIComponent text) = some (text.flatMap String.utf8EncodeChar) := by
  induction text with
  | nil => rfl
  | cons c rest ih =>
    have hcons : encodeURIComponent (c :: rest) =
        (if isUnescaped c then [c] else (String.utf8EncodeChar c).flatMap escapeOctet) ++ encodeURIComponent rest := rfl
    rw [hcons]
    split
    · rename_i hc
      have hescape : c ≠ '%' := by
        rintro rfl
        exact absurd hc (by decide)
      rw [List.singleton_append, unescape_char hescape, ih]
      rfl
    · rw [unescape_octets, ih]
      rfl

theorem decodeURIComponent_of_unescape {encoded : List Char}
    (h : unescape encoded = some (text.flatMap String.utf8EncodeChar)) : decodeURIComponent encoded = some text := by
  have hdecode := List.utf8Decode?_utf8Encode (l := text)
  simp only [List.utf8Encode] at hdecode
  simp [decodeURIComponent, h, hdecode]

theorem decodeURIComponent_encodeURIComponent (text : List Char) :
    decodeURIComponent (encodeURIComponent text) = some text :=
  decodeURIComponent_of_unescape unescape_encodeURIComponent

theorem encodeURIComponent_path : ∀ c ∈ encodeURIComponent text, isPathChar c := by
  intro c hc
  obtain ⟨d, -, hc⟩ := List.mem_flatMap.mp hc
  split at hc
  · rename_i hd
    rw [List.mem_singleton.mp hc]
    simp only [isUnescaped, Bool.or_eq_true, decide_eq_true_eq] at hd
    simp only [isPathChar, Bool.or_eq_true, decide_eq_true_eq]
    exact hd.imp_right fun hmem => by simp at hmem ⊢; tauto
  · obtain ⟨octet, -, hc⟩ := List.mem_flatMap.mp hc
    have hbound := octet.toNat_lt
    simp only [escapeOctet, List.mem_cons, List.not_mem_nil, or_false] at hc
    rcases hc with rfl | rfl | rfl
    · decide
    · exact isPathChar_toUpper _ (by omega)
    · exact isPathChar_toUpper _ (by omega)

theorem slash_notMem_encodeURIComponent : '/' ∉ encodeURIComponent text := fun h =>
  absurd (encodeURIComponent_path '/' h) (by decide)

theorem encodeURIComponent_eq_nil : encodeURIComponent text = [] ↔ text = [] := by
  constructor
  · intro h
    have hdecode := decodeURIComponent_encodeURIComponent text
    rw [h] at hdecode
    exact Option.some.inj (hdecode.symm.trans (decodeURIComponent_encodeURIComponent []))
  · rintro rfl
    rfl

/-- The segments that a URL parser drops. -/
def IsDots (segment : List Char) : Prop := segment = ['.'] ∨ segment = ['.', '.']

instance (segment : List Char) : Decidable (IsDots segment) := inferInstanceAs (Decidable (_ ∨ _))

-- a dot is not escaped, and an escaped sign of an escape is no dot
theorem encodeURIComponent_regular : Regular (encodeURIComponent text) ↔ ¬IsDots text := by
  have hread {encoded octets} (hencoded : unescape encoded = some (octets.flatMap String.utf8EncodeChar))
      (heq : encodeURIComponent text = encoded) : text = octets := by
    have hdecode := decodeURIComponent_of_unescape hencoded
    rw [← heq, decodeURIComponent_encodeURIComponent] at hdecode
    exact Option.some.inj hdecode
  have hsingle : ∀ encoded ∈ singleDots, unescape encoded = some (['.'].flatMap String.utf8EncodeChar) := by decide
  have hdouble : ∀ encoded ∈ doubleDots, unescape encoded = some (['.', '.'].flatMap String.utf8EncodeChar) := by decide
  constructor
  · rintro ⟨h, h'⟩ (rfl | rfl)
    · exact h (by decide)
    · exact h' (by decide)
  · intro h
    exact ⟨fun hmem => h (.inl (hread (hsingle _ hmem) rfl)), fun hmem => h (.inr (hread (hdouble _ hmem) rfl))⟩

end Encoding

section Targets

/-- The target of the request for `edgeObjectUrl key`: the client has read the URL's path. -/
def edgeObjectTarget (key : String) : String :=
  String.ofList (serialize (readSegments [] ((key.toList.splitOn '/').map encodeURIComponent)))

def edgeObjectRequest (key : String) : EdgeRequest := ⟨some "GET", some (edgeObjectTarget key)⟩

def Addressable (key : String) : Prop :=
  (key.toList.splitOn '/').head? ≠ some [] ∧ ∀ segment ∈ key.toList.splitOn '/', ¬IsDots segment

instance (key : String) : Decidable (Addressable key) :=
  haveI : Decidable (∀ segment ∈ key.toList.splitOn '/', ¬IsDots segment) := List.decidableBAll _ _
  inferInstanceAs (Decidable (_ ∧ _))

def Clean (segments : List (List Char)) : Prop := ∀ segment ∈ segments, ¬IsDots segment ∧ '/' ∉ segment

variable {segments : List (List Char)}

theorem slash_notMem_splitOn {text segment : List Char} (h : segment ∈ text.splitOn '/') : '/' ∉ segment := by
  induction text generalizing segment with
  | nil =>
    rw [List.splitOn_nil, List.mem_singleton] at h
    simp [h]
  | cons c text ih =>
    obtain ⟨first, rest, hsplit⟩ := List.exists_cons_of_ne_nil (List.splitOn_ne_nil '/' text)
    rw [List.splitOn_cons_eq_if_modifyHead, hsplit] at h
    rw [hsplit] at ih
    split at h
    · rcases List.mem_cons.mp h with rfl | h
      · simp
      · exact ih h
    · rename_i hc
      rcases List.mem_cons.mp h with rfl | h
      · have hfirst := ih (List.mem_cons_self ..)
        simp only [List.mem_cons, not_or]
        exact ⟨fun heq => hc (beq_iff_eq.mpr heq.symm), hfirst⟩
      · exact ih (List.mem_cons_of_mem _ h)

theorem decodeKey_encoded (hsegments : segments ≠ []) :
    decodeKey (['/'].intercalate (segments.map encodeURIComponent)) =
      some (String.ofList (['/'].intercalate segments)) := by
  have hsplit : (['/'].intercalate (segments.map encodeURIComponent)).splitOn '/' =
      segments.map encodeURIComponent := by
    refine List.splitOn_intercalate _ (fun segment hsegment => ?_) (by simpa using hsegments)
    obtain ⟨text, -, rfl⟩ := List.mem_map.mp hsegment
    exact slash_notMem_encodeURIComponent
  have hdecode : (segments.map encodeURIComponent).mapM decodeURIComponent = some segments := by
    clear hsegments hsplit
    induction segments with
    | nil => rfl
    | cons segment rest ih => simp [decodeURIComponent_encodeURIComponent, ih]
  simp [decodeKey, hsplit, hdecode]

theorem dropWhile_serialize : (serialize (segments.map encodeURIComponent)).dropWhile isSlash =
    ['/'].intercalate ((segments.dropWhile List.isEmpty).map encodeURIComponent) := by
  induction segments with
  | nil => rfl
  | cons segment rest ih =>
    have hcons : serialize ((segment :: rest).map encodeURIComponent) =
        '/' :: (encodeURIComponent segment ++ serialize (rest.map encodeURIComponent)) := rfl
    cases segment with
    | nil => exact ih
    | cons c text =>
      have hkept : (List.dropWhile List.isEmpty ((c :: text) :: rest)) = (c :: text) :: rest := rfl
      rw [hkept, List.map_cons, serialize_cons, List.dropWhile_cons_of_pos rfl, ← List.map_cons]
      have hne : encodeURIComponent (c :: text) ≠ [] := fun h => by simpa using encodeURIComponent_eq_nil.mp h
      obtain ⟨d, encoded, hd⟩ := List.exists_cons_of_ne_nil hne
      have hslash : isSlash d = false := by
        have hmem : d ∈ encodeURIComponent (c :: text) := by simp [hd]
        have hne : d ≠ '/' := fun heq => slash_notMem_encodeURIComponent (heq ▸ hmem)
        simp [isSlash, hne]
      have hfirst : ∃ tail, ['/'].intercalate (((c :: text) :: rest).map encodeURIComponent) = d :: tail := by
        rw [List.map_cons, hd]
        cases rest with
        | nil => exact ⟨encoded, by simp⟩
        | cons next rest => exact ⟨_, by rw [List.map_cons, List.intercalate_cons_cons]; rfl⟩
      obtain ⟨tail, htail⟩ := hfirst
      rw [htail, List.dropWhile_cons_of_neg (by simp [hslash])]

theorem mem_intercalate (separator : List Char) {segment : List Char} {segments : List (List Char)} {c : Char}
    (hsegment : segment ∈ segments) (hc : c ∈ segment) : c ∈ separator.intercalate segments := by
  induction segments with
  | nil => cases hsegment
  | cons first rest ih =>
    cases rest with
    | nil =>
      rw [List.mem_singleton.mp hsegment] at hc
      simpa using hc
    | cons second rest =>
      rw [List.intercalate_cons_cons]
      rcases List.mem_cons.mp hsegment with rfl | hrest
      · simp [hc]
      · simp [ih hrest]

theorem dropWhile_eq_nil
    (h : ['/'].intercalate ((segments.dropWhile List.isEmpty).map encodeURIComponent) = []) :
    segments.dropWhile List.isEmpty = [] := by
  cases hkept : segments.dropWhile List.isEmpty with
  | nil => rfl
  | cons first rest =>
    have hfirst := List.head?_dropWhile_not List.isEmpty segments
    rw [hkept] at hfirst h
    have hnil : encodeURIComponent first = [] := by
      apply List.eq_nil_iff_forall_not_mem.mpr
      intro c hc
      have hmem : encodeURIComponent first ∈ (first :: rest).map encodeURIComponent := List.mem_cons_self ..
      have hc := mem_intercalate ['/'] hmem hc
      rw [h] at hc
      cases hc
    rw [encodeURIComponent_eq_nil.mp hnil] at hfirst
    cases hfirst

theorem keyOfPath_serialize : keyOfPath (String.ofList (serialize (segments.map encodeURIComponent))) =
    if segments.dropWhile List.isEmpty = [] then none
    else some (String.ofList (['/'].intercalate (segments.dropWhile List.isEmpty))) := by
  rw [keyOfPath, String.toList_ofList, dropWhile_serialize]
  split
  · rename_i hempty
    rw [if_pos (dropWhile_eq_nil hempty)]
  · rename_i hne
    have hkept : segments.dropWhile List.isEmpty ≠ [] := by
      intro hkept
      rw [hkept] at hne
      exact hne rfl
    rw [if_neg hkept, decodeKey_encoded hkept]

theorem clean_splitOn {segments : List (List Char)} (hsegments : segments ≠ []) (h : Clean segments)
    (hfirst : segments.head? ≠ some []) : Addressable (String.ofList (['/'].intercalate segments)) := by
  have hsplit : (['/'].intercalate segments).splitOn '/' = segments :=
    List.splitOn_intercalate _ (fun segment hsegment => (h segment hsegment).2) hsegments
  rw [Addressable, String.toList_ofList, hsplit]
  exact ⟨hfirst, fun segment hsegment => (h segment hsegment).1⟩

theorem exists_encoded (encoded : List (List Char))
    (h : ∀ s ∈ encoded, Regular s ∧ ∃ text, '/' ∉ text ∧ s = encodeURIComponent text) :
    ∃ segments, encoded = segments.map encodeURIComponent ∧ Clean segments := by
  induction encoded with
  | nil => exact ⟨[], rfl, fun _ hs => absurd hs (List.not_mem_nil)⟩
  | cons s rest ih =>
    obtain ⟨hregular, text, hslash, rfl⟩ := h s (List.mem_cons_self ..)
    obtain ⟨segments, rfl, hclean⟩ := ih fun s hs => h s (List.mem_cons_of_mem _ hs)
    refine ⟨text :: segments, rfl, fun segment hsegment => ?_⟩
    rcases List.mem_cons.mp hsegment with rfl | hsegment
    · exact ⟨encodeURIComponent_regular.mp hregular, hslash⟩
    · exact hclean segment hsegment

theorem readSegments_encoded (key : String) : ∃ segments,
    readSegments [] ((key.toList.splitOn '/').map encodeURIComponent) = segments.map encodeURIComponent ∧
      Clean segments ∧ segments ≠ [] := by
  have hmem : ∀ s ∈ readSegments [] ((key.toList.splitOn '/').map encodeURIComponent),
      Regular s ∧ ∃ text, '/' ∉ text ∧ s = encodeURIComponent text := by
    intro s hs
    rcases mem_readSegments hs with hs | rfl | ⟨hs, hregular⟩
    · cases hs
    · exact ⟨regular_nil, [], by simp, rfl⟩
    · obtain ⟨text, htext, rfl⟩ := List.mem_map.mp hs
      exact ⟨hregular, text, slash_notMem_splitOn htext, rfl⟩
  obtain ⟨segments, hsegments, hclean⟩ := exists_encoded _ hmem
  refine ⟨segments, hsegments, hclean, ?_⟩
  rintro rfl
  exact readSegments_ne_nil (by simp [List.splitOn_ne_nil]) hsegments

theorem isPath_encoded (segments : List (List Char)) : IsPath (segments.map encodeURIComponent) := by
  intro s hs
  obtain ⟨text, -, rfl⟩ := List.mem_map.mp hs
  exact encodeURIComponent_path

theorem readSegments_clean (h : Clean segments) :
    readSegments [] (segments.map encodeURIComponent) = segments.map encodeURIComponent := by
  rw [readSegments_regular, List.nil_append]
  intro s hs
  obtain ⟨text, htext, rfl⟩ := List.mem_map.mp hs
  exact encodeURIComponent_regular.mpr (h text htext).1

variable {pathname : String → Option String} (hpathname : ReadsTargets pathname)

include hpathname

/-- The server reads a clean path, or what follows a host in it. -/
theorem pathname_clean (h : Clean segments) (hsegments : segments ≠ []) {path : String}
    (hpath : pathname (String.ofList (serialize (segments.map encodeURIComponent))) = some path) :
    ∃ kept, path = String.ofList (serialize (kept.map encodeURIComponent)) ∧ Clean kept := by
  by_cases hhost : ∃ next rest, segments = [] :: next :: rest
  · obtain ⟨next, rest, rfl⟩ := hhost
    have hhost := hpathname.host (isPath_encoded ([] :: next :: rest)) (by simp)
    rcases hhost with hnone | hsome
    · cases hnone.symm.trans hpath
    · cases hsome.symm.trans hpath
      have hmem : ∀ s ∈ behindHost (([] :: next :: rest).map encodeURIComponent),
          Regular s ∧ ∃ text, '/' ∉ text ∧ s = encodeURIComponent text := by
        intro s hs
        rcases mem_behindHost hs with rfl | hs
        · exact ⟨regular_nil, [], by simp, rfl⟩
        · obtain ⟨text, htext, rfl⟩ := List.mem_map.mp hs
          exact ⟨encodeURIComponent_regular.mpr (h text htext).1, text, (h text htext).2, rfl⟩
      obtain ⟨kept, hkept, hclean⟩ := exists_encoded _ hmem
      refine ⟨kept, ?_, hclean⟩
      rw [← readSegments_clean hclean, ← hkept]
      rfl
  · have hfirst : (segments.map encodeURIComponent).head? ≠ some [] ∨ segments.map encodeURIComponent = [[]] := by
      obtain ⟨first, rest, rfl⟩ := List.exists_cons_of_ne_nil hsegments
      by_cases hfirst : first = []
      · subst hfirst
        cases rest with
        | nil => exact .inr rfl
        | cons next rest => exact absurd ⟨next, rest, rfl⟩ hhost
      · left
        intro hnil
        exact hfirst (encodeURIComponent_eq_nil.mp (Option.some.inj hnil))
    have hread := hpathname.path (isPath_encoded segments) (by simpa using hsegments) hfirst
    rw [readSegments_clean h] at hread
    cases hread.symm.trans hpath
    exact ⟨segments, rfl, h⟩

/-- The URL of a key is read as that key exactly if no segment is dots and the first one is not empty. The
URL of another key is read as some other key that has a URL, or as none. -/
theorem edge_object_url_reads_key (key : String) :
    (requestedKey pathname (edgeObjectRequest key) = some key ↔ Addressable key) ∧
      ∀ read, requestedKey pathname (edgeObjectRequest key) = some read → Addressable read := by
  have hread : ∀ read, requestedKey pathname (edgeObjectRequest key) = some read → Addressable read := by
    intro read hrequested
    obtain ⟨path, hpath, hkey⟩ := Option.bind_eq_some_iff.mp hrequested
    obtain ⟨segments, hsegments, hclean, hne⟩ := readSegments_encoded key
    have htarget : pathname (String.ofList (serialize (segments.map encodeURIComponent))) = some path := by
      rw [← hsegments]
      exact hpath
    obtain ⟨kept, rfl, hkept⟩ := pathname_clean hpathname hclean hne htarget
    rw [keyOfPath_serialize] at hkey
    split at hkey
    · cases hkey
    · rename_i hdropped
      cases hkey
      apply clean_splitOn hdropped
      · exact fun segment hsegment => hkept segment ((List.dropWhile_suffix _).subset hsegment)
      · intro hfirst
        have hnot := List.head?_dropWhile_not List.isEmpty kept
        rw [hfirst] at hnot
        cases hnot
  refine ⟨⟨hread key, fun haddressable => ?_⟩, hread⟩
  obtain ⟨hfirst, hdots⟩ := haddressable
  have hclean : Clean (key.toList.splitOn '/') := fun segment hsegment =>
    ⟨hdots segment hsegment, slash_notMem_splitOn hsegment⟩
  obtain ⟨first, rest, hsplit⟩ := List.exists_cons_of_ne_nil (List.splitOn_ne_nil '/' key.toList)
  have hkept : (key.toList.splitOn '/').dropWhile List.isEmpty = key.toList.splitOn '/' := by
    rw [hsplit] at hfirst ⊢
    cases first with
    | nil => exact absurd rfl hfirst
    | cons c text => rfl
  have hhead : ((key.toList.splitOn '/').map encodeURIComponent).head? ≠ some [] := by
    rw [hsplit] at hfirst ⊢
    intro hnil
    exact hfirst (congrArg some (encodeURIComponent_eq_nil.mp (Option.some.inj hnil)))
  have htarget := hpathname.path (isPath_encoded _) (by simp [List.splitOn_ne_nil]) (.inl hhead)
  rw [requestedKey, edgeObjectRequest, if_pos rfl, Option.getD_some, edgeObjectTarget, readSegments_clean hclean,
    htarget, readSegments_clean hclean, Option.bind_some, keyOfPath_serialize, hkept, if_neg (List.splitOn_ne_nil _ _),
    List.intercalate_splitOn, String.ofList_toList]

end Targets

/-- A colon is escaped, a key that climbs is not its own URL's, and one without a first segment is a host. -/
theorem edge_object_url_reads_key_colon :
    requestedKey (targetPathname fun _ => true) (edgeObjectRequest "cdn/a: %2e.css") = some "cdn/a: %2e.css" ∧
      requestedKey (targetPathname fun _ => true) (edgeObjectRequest "cdn/../app.css") ≠ some "cdn/../app.css" ∧
      requestedKey (targetPathname fun _ => true) (edgeObjectRequest "/app.css") ≠ some "/app.css" :=
  ⟨(edge_object_url_reads_key targetPathname_reads _).1.mpr (by decide),
    mt (edge_object_url_reads_key targetPathname_reads _).1.mp (by decide),
    mt (edge_object_url_reads_key targetPathname_reads _).1.mp (by decide)⟩

end Marketplace.Cdn
