import Mathlib.Data.Nat.Notation
import Mathlib.Data.List.Basic
import Marketplace.Concurrent.TwoRuns

namespace Marketplace.Files

open Concurrent

def minPartSize : ℕ := 5 * 1024 * 1024

def maxParts : ℕ := 10000

def calculatePartSize (fileSize : ℕ) : ℕ :=
  let byPartLimit := (fileSize + maxParts - 1) / maxParts
  max minPartSize byPartLimit

theorem calculatePartSize_suffices (fileSize : ℕ) : fileSize ≤ maxParts * calculatePartSize fileSize := by
  have hlimit : (fileSize + maxParts - 1) / maxParts ≤ calculatePartSize fileSize := le_max_right _ _
  simp only [maxParts] at hlimit ⊢
  omega

-- a part of a `ListParts` response; the SDK declares every field optional
structure ListedPart where
  partNumber : Option ℕ
  etag : Option String
  size : Option ℕ
  deriving DecidableEq, Repr

structure ListPartsOutput where
  parts : Option (List ListedPart)
  isTruncated : Option Bool
  nextPartNumberMarker : Option ℕ
  deriving DecidableEq, Repr

structure UploadedPart where
  partNumber : ℕ
  etag : String
  size : ℕ
  deriving DecidableEq, Repr

structure CompletedPart where
  partNumber : ℕ
  etag : String
  deriving DecidableEq, Repr

inductive MultipartOp
  | listParts (key uploadId : String) (partNumberMarker : Option ℕ)
  | completeMultipartUpload (key uploadId : String) (parts : List CompletedPart)

abbrev MultipartOp.Res : MultipartOp → Type
  | .listParts _ _ _ => ListPartsOutput
  | .completeMultipartUpload _ _ _ => Option String

inductive MultipartFailure
  | storage
  | error (message : String)
  deriving DecidableEq, Repr

abbrev MultipartCall (α : Type) := Prog MultipartOp MultipartOp.Res MultipartFailure α

def send (o : MultipartOp) : MultipartCall o.Res := Prog.perform o

def ListedPart.uploaded (part : ListedPart) : Option UploadedPart :=
  match part.partNumber, part.etag with
  | some partNumber, some etag => if etag = "" then none else some ⟨partNumber, etag, part.size.getD 0⟩
  | _, _ => none

def listUploadedParts (key uploadId : String) : MultipartCall (List UploadedPart) := do
  let response : ListPartsOutput ← send (.listParts key uploadId none)
  pure ((response.parts.getD []).filterMap ListedPart.uploaded)

def UploadedPart.completed (part : UploadedPart) : CompletedPart := ⟨part.partNumber, part.etag⟩

def completeMultipartUpload (key uploadId : String) : MultipartCall String := do
  let parts ← listUploadedParts key uploadId
  if parts.length = 0 then throw (.error "Multipart upload has no uploaded parts")
  else
    let sorted := parts.mergeSort fun a b => a.partNumber ≤ b.partNumber
    let etag : Option String ← send (.completeMultipartUpload key uploadId (sorted.map UploadedPart.completed))
    pure (etag.getD "")

structure HeldParts where
  parts : List UploadedPart
  ascending : parts.Pairwise (·.partNumber < ·.partNumber)
  etags : ∀ part ∈ parts, part.etag ≠ ""

structure Completion where
  key : String
  uploadId : String
  parts : List CompletedPart
  deriving DecidableEq, Repr

structure MultipartStorage where
  held : (key uploadId : String) → HeldParts
  completions : List Completion

def HeldParts.after (held : HeldParts) (marker : Option ℕ) : List UploadedPart :=
  held.parts.filter fun part => marker.all fun n => n < part.partNumber

def UploadedPart.listed (part : UploadedPart) : ListedPart := ⟨some part.partNumber, some part.etag, some part.size⟩

/-- S3's `ListParts`: the parts after the marker by their numbers, `pageSize` of them (1000 where the request
has no `MaxParts`), and where the next page begins. -/
structure ListsParts (listParts : HeldParts → Option ℕ → ListPartsOutput) (pageSize : ℕ) : Prop where
  page : ∀ held marker, (listParts held marker).parts =
      some (((held.after marker).take pageSize).map UploadedPart.listed)
  isTruncated : ∀ held marker, (listParts held marker).isTruncated =
      some (decide (pageSize < (held.after marker).length))
  nextPartNumberMarker : ∀ held marker, pageSize < (held.after marker).length →
      (listParts held marker).nextPartNumberMarker =
    ((held.after marker).take pageSize).getLast?.map UploadedPart.partNumber

section Requests

variable (listParts : HeldParts → Option ℕ → ListPartsOutput) (objectETag : List CompletedPart → Option String)

def MultipartStorage.serve : (o : MultipartOp) → MultipartStorage → Except MultipartFailure o.Res × MultipartStorage
  | .listParts key uploadId marker, s => (.ok (listParts (s.held key uploadId) marker), s)
  | .completeMultipartUpload key uploadId parts, s =>
    (.ok (objectETag parts), { s with completions := s.completions ++ [⟨key, uploadId, parts⟩] })

/-- What the storage has been sent when `completeMultipartUpload` has returned. -/
def MultipartStorage.complete (s : MultipartStorage) (key uploadId : String) : MultipartStorage :=
  ((completeMultipartUpload key uploadId).run (serve listParts objectETag) s).2

end Requests

def Assembles (held : HeldParts) (sent : List CompletedPart) : Prop :=
  sent.Pairwise (·.partNumber < ·.partNumber) ∧ ∀ part, part ∈ sent ↔ part ∈ held.parts.map UploadedPart.completed

theorem HeldParts.assembles_iff {held : HeldParts} {n : ℕ} :
    Assembles held ((held.parts.take n).map UploadedPart.completed) ↔ held.parts.length ≤ n := by
  have hpairwise : (held.parts.map UploadedPart.completed).Pairwise (·.partNumber < ·.partNumber) :=
    List.pairwise_map.mpr held.ascending
  constructor
  · rintro ⟨-, hall⟩
    by_contra hn
    have hlt : n < (held.parts.map UploadedPart.completed).length := by
      rw [List.length_map]
      omega
    have hmem := (hall _).mpr (List.getElem_mem hlt)
    rw [List.map_take] at hmem
    obtain ⟨i, hi, heq⟩ := List.mem_take_iff_getElem.mp hmem
    have hne := List.pairwise_iff_getElem.mp hpairwise i n (by omega) hlt (by omega)
    rw [heq] at hne
    exact lt_irrefl _ hne
  · intro hn
    rw [List.take_of_length_le hn]
    exact ⟨hpairwise, fun _ => Iff.rfl⟩

section Completion

variable {listParts : HeldParts → Option ℕ → ListPartsOutput} {objectETag : List CompletedPart → Option String}
  {pageSize : ℕ} {s : MultipartStorage} {key uploadId : String}

theorem HeldParts.uploaded_listed (held : HeldParts) (n : ℕ) :
    ((held.parts.take n).map UploadedPart.listed).filterMap ListedPart.uploaded = held.parts.take n := by
  rw [List.filterMap_map]
  refine (List.filterMap_congr fun part hpart => ?_).trans List.filterMap_some
  have hetag := held.etags part (List.mem_of_mem_take hpart)
  simp [UploadedPart.listed, ListedPart.uploaded, hetag]

theorem listUploadedParts_run (h : ListsParts listParts pageSize) :
    (listUploadedParts key uploadId).run (MultipartStorage.serve listParts objectETag) s =
      (.ok ((s.held key uploadId).parts.take pageSize), s) := by
  have hafter : (s.held key uploadId).after none = (s.held key uploadId).parts := by simp [HeldParts.after]
  have hpage := h.page (s.held key uploadId) none
  rw [hafter] at hpage
  have hparts : ((listParts (s.held key uploadId) none).parts.getD []).filterMap ListedPart.uploaded =
      (s.held key uploadId).parts.take pageSize := by
    rw [hpage]
    exact HeldParts.uploaded_listed _ _
  exact Prod.ext (congrArg Except.ok hparts) rfl

theorem complete_sends_page (h : ListsParts listParts pageSize)
    (hpage : (s.held key uploadId).parts.take pageSize ≠ []) :
    (s.complete listParts objectETag key uploadId).completions = s.completions ++
      [⟨key, uploadId, ((s.held key uploadId).parts.take pageSize).map UploadedPart.completed⟩] := by
  have hsorted : (((s.held key uploadId).parts.take pageSize).mergeSort fun a b => a.partNumber ≤ b.partNumber) =
      (s.held key uploadId).parts.take pageSize := by
    apply List.mergeSort_of_pairwise
    exact ((s.held key uploadId).ascending.sublist (List.take_sublist ..)).imp fun hlt => decide_eq_true
      (Nat.le_of_lt hlt)
  unfold MultipartStorage.complete completeMultipartUpload
  rw [Prog.bind_def, Prog.run_bind, listUploadedParts_run h]
  simp only [List.length_eq_zero_iff, if_neg hpage]
  exact congrArg (fun sent : List UploadedPart => s.completions ++ [⟨key, uploadId,
    sent.map UploadedPart.completed⟩]) hsorted

theorem complete_sends_nothing (h : ListsParts listParts pageSize)
    (hpage : (s.held key uploadId).parts.take pageSize = []) :
    (s.complete listParts objectETag key uploadId).completions = s.completions := by
  unfold MultipartStorage.complete completeMultipartUpload
  rw [Prog.bind_def, Prog.run_bind, listUploadedParts_run h]
  simp only [List.length_eq_zero_iff, if_pos hpage]
  rfl

theorem completion_assembles_iff (h : ListsParts listParts pageSize) (hheld : (s.held key uploadId).parts ≠ []) :
    (∃ sent, (s.complete listParts objectETag key uploadId).completions = s.completions ++ [⟨key, uploadId, sent⟩] ∧
      Assembles (s.held key uploadId) sent) ↔ (s.held key uploadId).parts.length ≤ pageSize := by
  by_cases hpage : (s.held key uploadId).parts.take pageSize = []
  · rw [complete_sends_nothing h hpage]
    have hzero : pageSize = 0 := (List.take_eq_nil_iff.mp hpage).resolve_right hheld
    constructor
    · rintro ⟨sent, hsent, -⟩
      simp at hsent
    · intro hlength
      rw [hzero, Nat.le_zero, List.length_eq_zero_iff] at hlength
      exact absurd hlength hheld
  · rw [complete_sends_page h hpage, ← HeldParts.assembles_iff]
    constructor
    · rintro ⟨sent, hsent, hall⟩
      simp only [List.append_cancel_left_eq, List.cons.injEq, Completion.mk.injEq, true_and, and_true] at hsent
      exact hsent ▸ hall
    · exact fun hall => ⟨_, rfl, hall⟩

end Completion

def pagedListing (held : HeldParts) (marker : Option ℕ) : ListPartsOutput :=
  let page := (held.after marker).take 1000
  if 1000 < (held.after marker).length then
    ⟨some (page.map UploadedPart.listed), some true, page.getLast?.map UploadedPart.partNumber⟩
  else ⟨some (page.map UploadedPart.listed), some false, none⟩

theorem pagedListing_listsParts : ListsParts pagedListing 1000 := by
  constructor
  · intro held marker
    unfold pagedListing
    split <;> rfl
  · intro held marker
    unfold pagedListing
    split <;> simp_all
  · intro held marker hmore
    simp [pagedListing, hmore]

def numberedParts (n : ℕ) : HeldParts where
  parts := (List.range n).map fun i => ⟨i + 1, "etag", minPartSize⟩
  ascending := by
    rw [List.pairwise_map]
    exact List.pairwise_lt_range.imp fun hlt => Nat.succ_lt_succ hlt
  etags := by simp

def numberedStorage (n : ℕ) : MultipartStorage := ⟨fun _ _ => numberedParts n, []⟩

theorem completion_assembles_three : ∃ sent,
    ((numberedStorage 3).complete pagedListing (fun _ => none) "uploads/1/video.bin" "upload").completions =
      [⟨"uploads/1/video.bin", "upload", sent⟩] ∧ Assembles (numberedParts 3) sent :=
  (completion_assembles_iff (s := numberedStorage 3) pagedListing_listsParts (by decide)).mpr (by decide)

-- a file of 1001 times 5 MiB has 1001 parts, and the last one is left out
theorem large_completion_truncated : calculatePartSize (1001 * minPartSize) = minPartSize ∧
    ∃ sent, ((numberedStorage 1001).complete pagedListing (fun _ => none) "uploads/1/video.bin" "upload").completions =
      [⟨"uploads/1/video.bin", "upload", sent⟩] ∧ ¬Assembles (numberedParts 1001) sent := by
  refine ⟨by decide, _, complete_sends_page (s := numberedStorage 1001) pagedListing_listsParts ?_, fun hall => ?_⟩
  · simp [numberedStorage, numberedParts]
  · have hlength : (numberedParts 1001).parts.length ≤ 1000 := HeldParts.assembles_iff.mp hall
    simp [numberedParts] at hlength

end Marketplace.Files
