import SyncBridge.HttpHeaders
import SyncBridge.Management

/-!
# The headers of a download

The controller hands the stored filename to the client in the content disposition,
between quotes and without its own quotes. The value is accepted by the runtime and read
back as the filename exactly when nothing else in the filename needs quoting or lies
outside the characters a header may hold.
-/

namespace DownloadHeaders

open Calls Ingestion Management HttpHeaders NodeCrypto

/-- `filename.replace(/"/g, '')`. -/
def withoutQuotes (filename : String) : List Char := filename.toList.filter (· ≠ '"')

def contentDisposition (filename : String) : List Char :=
  "attachment; filename=\"".toList ++ withoutQuotes filename ++ ['"']

/-- The headers `TransfersController.download` sets. -/
def downloadHeaders {L : Library} (d : DownloadResult L) : List (String × List Char) :=
  [("Content-Type", d.contentType.toList), ("Content-Disposition", contentDisposition d.filename)]

/-- The value is sent, and read as an attachment with the one filename `name`. -/
def Carries (value name : List Char) : Prop :=
  checkInvalidHeaderChar value = false ∧
    ∃ d, parseDisposition value = some d ∧ d.kind = "attachment".toList ∧
      d.parms.filter (fun q => q.1 = "filename".toList) = [("filename".toList, name)]

/-- What may stand in a filename besides quotes. -/
def Unquoted (filename : String) : Prop :=
  ∀ c ∈ filename.toList, c ≠ '"' → headerChar c = true ∧ c ≠ '\\'

theorem kind_read (text : List Char) :
    token (skipSpace ("attachment; filename=\"".toList ++ text)) =
      some ("attachment".toList, "; filename=\"".toList ++ text) := rfl

theorem name_read (n : Nat) (text : List Char) :
    parameters (n + 1) ("; filename=\"".toList ++ text) =
      (quotedText text).bind fun q => (parameters n q.2).map (("filename".toList, q.1) :: ·) := by
  change (quotedText text).bind (fun q => (parameters n q.2).bind fun more =>
    some (("filename".toList, q.1) :: more)) = _
  congr 1
  funext q
  cases parameters n q.2 with
  | none => rfl
  | some more => rfl

/-- The value is read through the quoted string alone. -/
theorem parse_contentDisposition (text : List Char) :
    parseDisposition ("attachment; filename=\"".toList ++ text) =
      (quotedText text).bind fun q =>
        (parameters (text.length + 12) q.2).map fun more =>
          ⟨"attachment".toList, ("filename".toList, q.1) :: more⟩ := by
  have rest : ("; filename=\"".toList ++ text).length = text.length + 12 := by
    rw [List.length_append, Nat.add_comm]
    rfl
  rw [parseDisposition, kind_read]
  change ((parameters (("; filename=\"".toList ++ text).length + 1)
    ("; filename=\"".toList ++ text)).bind
    fun parms => some (⟨"attachment".toList, parms⟩ : Disposition)) = _
  rw [rest, name_read]
  cases quotedText text with
  | none => rfl
  | some q =>
    rw [Option.bind_some, Option.bind_some]
    cases parameters (text.length + 12) q.2 with
    | none => rfl
    | some more => rfl

theorem withoutQuotes_unquoted (filename : String) : '"' ∉ withoutQuotes filename := by
  simp [withoutQuotes]

theorem unquoted_iff (filename : String) :
    Unquoted filename ↔ ∀ c ∈ withoutQuotes filename, headerChar c = true ∧ c ≠ '\\' := by
  simp only [Unquoted, withoutQuotes, List.mem_filter, decide_eq_true_eq]
  constructor
  · exact fun h c hc => h c hc.1 hc.2
  · exact fun h c hc quote => h c ⟨hc, quote⟩

/-- The fixed part of the value passes the check of the runtime. -/
theorem check_value (text : List Char) :
    checkInvalidHeaderChar ("attachment; filename=\"".toList ++ text ++ ['"']) = false ↔
      ∀ c ∈ text, headerChar c = true := by
  have fixed : checkInvalidHeaderChar "attachment; filename=\"".toList = false := by decide
  have quote : headerChar '"' = true := by decide
  simp only [checkInvalidHeaderChar] at fixed ⊢
  rw [List.any_append, List.any_append, fixed]
  simp [quote]

theorem carries_iff (text : List Char) (quotes : '"' ∉ text) :
    Carries ("attachment; filename=\"".toList ++ text ++ ['"']) text ↔
      ∀ c ∈ text, headerChar c = true ∧ c ≠ '\\' := by
  rw [Carries, check_value, List.append_assoc, parse_contentDisposition]
  constructor
  · rintro ⟨valid, d, hd, -, only⟩
    obtain ⟨⟨value, rest⟩, hread, hmore⟩ := Option.bind_eq_some_iff.mp hd
    obtain ⟨more, -, rfl⟩ := Option.map_eq_some_iff.mp hmore
    have same : value = text := by
      simp only [List.filter_cons, decide_true, if_true, List.cons.injEq, Prod.mk.injEq] at only
      exact only.1.2
    exact (quotedText_exact quotes (same ▸ hread)).2
  · intro plain
    have reads : quotedText (text ++ ['"']) = some (text, []) :=
      quotedText_reads [] fun c hc => ⟨(plain c hc).1, fun hq => quotes (hq ▸ hc), (plain c hc).2⟩
    refine ⟨fun c hc => (plain c hc).1,
      ⟨"attachment".toList, [("filename".toList, text)]⟩, ?_, rfl, ?_⟩
    · rw [reads]
      rfl
    · simp

/-- The header of a download carries the filename that accepting the upload stored exactly
when no character of it but quotes needs another form. -/
theorem download_header_carries_filename (env : Env) (p : SftpgoWebhookDto) (sourcePath : String)
    (stored : DownloadResult env.crypto) :
    let d := { stored with filename := (pendingInput env p sourcePath).filename }
    ∃ value, (downloadHeaders d).lookup "Content-Disposition" = some value ∧
      (Carries value (withoutQuotes d.filename) ↔ Unquoted (basename p.virtualPath)) := by
  refine ⟨contentDisposition (basename p.virtualPath), rfl, ?_⟩
  rw [unquoted_iff]
  exact carries_iff _ (withoutQuotes_unquoted _)

/-- A Korean filename is refused by the runtime, and a backslash is lost on the way. -/
theorem download_header_loses_filename :
    ¬ Carries (contentDisposition (basename "/보고서.txt")) (withoutQuotes (basename "/보고서.txt")) ∧
    ¬ Carries (contentDisposition (basename "/a\\b.txt"))
      (withoutQuotes (basename "/a\\b.txt")) := by
  constructor
  · intro carried
    have plain := (carries_iff _ (withoutQuotes_unquoted _)).mp carried
    exact absurd (plain '보' (by decide)).1 (by decide)
  · intro carried
    have plain := (carries_iff _ (withoutQuotes_unquoted _)).mp carried
    exact (plain '\\' (by decide)).2 rfl

end DownloadHeaders
