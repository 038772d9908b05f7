import SyncBridge.Ingestion
import SyncBridge.JsValues
import SyncBridge.LengthFrames
import SyncBridge.LossyUtf8

/-!
# Scanning a file with clamd

`scanFileWithClamd` as the handlers of its socket and its read stream. The handlers run in
any order the runtime chooses; the state is what they share. What goes out is the command
and the file in frames, ended by an empty one. What comes in is text, collected until clamd
closes and then searched for the two words of a verdict.
-/

namespace ClamdClient

open ChunkTransforms Calls Ingestion JsValues LengthFrames LossyUtf8

/-! ## The client -/

/-- `text.replace(/^stream:\s*/, '')`. -/
def withoutStream (text : List Char) : List Char :=
  if "stream:".toList.isPrefixOf text then (text.drop 7).dropWhile isSpace else text

/-- `text.replace(/\s*FOUND$/, '')`. -/
def withoutFound (text : List Char) : List Char :=
  if "FOUND".toList.isSuffixOf text then trimEnd (text.take (text.length - 5)) else text

/-- What the promise is settled with once clamd has closed. -/
def verdict (response : List Char) : Except String ScanResult :=
  let text := trim response
  if includes text "FOUND".toList then
    .ok ⟨false, some (String.ofList (withoutFound (withoutStream text)))⟩
  else if includes text "OK".toList then .ok ⟨true, none⟩
  else .error ("Unexpected clamd response: " ++ String.ofList text)

inductive Event where
  | connect
  | fileData (chunk : Bytes)
  | fileEnd
  | fileError (message : String)
  | data (d : Bytes)
  | ended
  | error (message : String)
  | timeout

/-- What the handlers share. A length that does not fit is `thrown` out of its handler. -/
structure Scan where
  response : List Char
  settled : Bool
  destroyed : Bool
  thrown : Bool
  outcome : Option (Except String ScanResult)
  written : Bytes

def Scan.initial : Scan := ⟨[], false, false, false, none, []⟩

def Scan.fail (s : Scan) (message : String) : Scan :=
  if s.settled then s
  else { s with settled := true, destroyed := true, outcome := some (.error message) }

def Scan.write (s : Scan) (b : Bytes) : Scan :=
  if s.destroyed then s else { s with written := s.written ++ b }

def writeUInt32BE (n : Nat) : Option Bytes := if n < 2 ^ 32 then some (be32 n) else none

def command : Bytes := asciiBytes "zINSTREAM\x00".toList

def step (s : Scan) : Event → Scan
  | .error message => s.fail message
  | .timeout => s.fail "clamd scan timed out"
  | .data d => { s with response := s.response ++ decode d }
  | .ended =>
    if s.settled then s else { s with settled := true, outcome := some (verdict s.response) }
  | .connect => s.write command
  | .fileError message => s.fail message
  | .fileData chunk => match writeUInt32BE chunk.length with
    | none => { s with thrown := true }
    | some size => (s.write size).write chunk
  | .fileEnd => s.write (List.replicate 4 0)

def run (s : Scan) (es : List Event) : Scan := es.foldl step s

def Event.isData : Event → Bool
  | .data _ => true
  | _ => false

/-- Events of the connection being made and of the file being read. -/
def Event.isFile : Event → Bool
  | .connect | .fileData _ | .fileEnd => true
  | _ => false

/-! ## What goes out -/

/-- The command of the protocol: `z`, the letters of INSTREAM, and the NUL that ends it. -/
def instreamCommand : Bytes := [122, 73, 78, 83, 84, 82, 69, 65, 77, 0]

/-- The bytes clamd reads: the command, then frames up to the empty one. -/
def readInstream (b : Bytes) : Option (Bytes × Bytes) :=
  if instreamCommand.isPrefixOf b then readFrames b.length (b.drop instreamCommand.length)
  else none

/-- What the client writes first is the command of the protocol. -/
theorem command_eq : command = instreamCommand := by decide

/-- What one event sends. -/
def sent : Event → Bytes
  | .connect => command
  | .fileData chunk => frame chunk
  | .fileEnd => be32 0
  | _ => []

/-- An event of a scan that goes on, with chunks a length can be written for. -/
def Event.goesOn : Event → Prop
  | .connect | .fileEnd | .data _ => True
  | .fileData chunk => chunk.length < 2 ^ 32
  | _ => False

theorem write_open {s : Scan} (h : s.destroyed = false) (b : Bytes) :
    s.write b = { s with written := s.written ++ b } := by
  simp [Scan.write, h]

theorem be32_zero : List.replicate 4 (0 : UInt8) = be32 0 := by decide

theorem step_sends {s : Scan} (h : s.destroyed = false) {e : Event} (on : e.goesOn) :
    (step s e).destroyed = false ∧ (step s e).written = s.written ++ sent e := by
  cases e with
  | connect => simp [step, sent, write_open h, h]
  | fileData chunk =>
    have fits : chunk.length < 2 ^ 32 := on
    simp only [step, writeUInt32BE, if_pos fits, sent, frame, write_open h]
    rw [write_open (by exact h)]
    exact ⟨h, List.append_assoc _ _ _⟩
  | fileEnd =>
    rw [step, write_open h, be32_zero]
    exact ⟨h, rfl⟩
  | data d => exact ⟨h, (List.append_nil _).symm⟩
  | _ => exact on.elim

theorem run_sends {s : Scan} (h : s.destroyed = false) {es : List Event} (on : ∀ e ∈ es, e.goesOn) :
    (run s es).written = s.written ++ es.flatMap sent := by
  induction es generalizing s with
  | nil => simp [run]
  | cons e es ih =>
    obtain ⟨kept, written⟩ := step_sends h (on e List.mem_cons_self)
    have rest := ih kept fun d hd => on d (List.mem_cons_of_mem e hd)
    rw [run, List.foldl_cons, ← run, rest, written, List.append_assoc, List.flatMap_cons]

/-- Data events send nothing. -/
theorem sent_filter (es : List Event) :
    es.flatMap sent = (es.filter fun e => !e.isData).flatMap sent := by
  induction es with
  | nil => rfl
  | cons e es ih =>
    cases e with
    | data d => simpa [sent, Event.isData] using ih
    | _ => simp [Event.isData, ih]

theorem sent_chunks (chunks : List Bytes) :
    (chunks.map Event.fileData).flatMap sent = chunks.flatMap frame := by
  rw [List.flatMap_map]
  rfl

theorem readInstream_frames {chunks : List Bytes} (nonempty : ∀ c ∈ chunks, c ≠ [])
    (bounded : ∀ c ∈ chunks, c.length < 2 ^ 32) :
    readInstream (instreamCommand ++ frames chunks) = some (chunks.flatten, []) := by
  have enough : chunks.length < (instreamCommand ++ frames chunks).length := by
    have := length_frames chunks
    rw [List.length_append]
    omega
  have read := readFrames_frames nonempty bounded enough []
  rw [List.append_nil] at read
  rw [readInstream, if_pos (by simp), List.drop_left, read]

/-- Whatever a file holds, however it is cut and whenever the reply comes in, clamd reads the
whole file and nothing is left over. -/
theorem instream_framing_faithful (content : Bytes) (chunks : List Bytes)
    (cut : chunks.flatten = content) (nonempty : ∀ c ∈ chunks, c ≠ [])
    (bounded : ∀ c ∈ chunks, c.length < 2 ^ 32) (es : List Event)
    (order : es.filter (fun e => !e.isData) = .connect :: chunks.map .fileData ++ [.fileEnd]) :
    readInstream (run .initial es).written = some (content, []) := by
  have on : ∀ e ∈ es, e.goesOn := by
    intro e he
    by_cases data : e.isData = true
    · cases e <;> simp_all [Event.isData, Event.goesOn]
    · have kept : e ∈ es.filter fun e => !e.isData := List.mem_filter.mpr ⟨he, by simpa using data⟩
      rw [order] at kept
      simp only [List.cons_append, List.mem_cons, List.mem_append, List.mem_map, List.not_mem_nil,
        or_false] at kept
      rcases kept with rfl | ⟨c, hc, rfl⟩ | rfl
      · trivial
      · exact bounded c hc
      · trivial
  have written := run_sends (s := .initial) rfl on
  rw [sent_filter, order, List.flatMap_append, List.flatMap_cons, sent_chunks] at written
  have whole : (run .initial es).written = instreamCommand ++ frames chunks := by
    rw [written, ← command_eq]
    simp [Scan.initial, sent, frames]
  rw [whole, readInstream_frames nonempty bounded, cut]

/-- Two bytes in two chunks, a reply arriving between them. -/
theorem instream_framing_faithful_sample :
    readInstream (run .initial [.connect, .fileData [104], .data [111], .fileData [105],
      .fileEnd]).written =
      some ([104, 105], []) :=
  instream_framing_faithful [104, 105] [[104], [105]] rfl (by decide) (by decide)
    [.connect, .fileData [104], .data [111], .fileData [105], .fileEnd] rfl

/-! ## What comes in -/

theorem step_file {s : Scan} {e : Event} (file : e.isFile = true) :
    (step s e).response = s.response ∧ (step s e).settled = s.settled ∧
      (step s e).outcome = s.outcome := by
  have kept : ∀ (s : Scan) (b : Bytes), (s.write b).response = s.response ∧
      (s.write b).settled = s.settled ∧ (s.write b).outcome = s.outcome := by
    intro s b
    unfold Scan.write
    split <;> exact ⟨rfl, rfl, rfl⟩
  cases e with
  | connect => exact kept s command
  | fileData chunk =>
    rw [step]
    split
    · exact ⟨rfl, rfl, rfl⟩
    · next size _ =>
      obtain ⟨r, st, o⟩ := kept (s.write size) chunk
      obtain ⟨r', st', o'⟩ := kept s size
      exact ⟨r.trans r', st.trans st', o.trans o'⟩
  | fileEnd => exact kept s _
  | _ => cases file

/-- Once the reply is in, the file's events do not change the outcome. -/
theorem run_files {s : Scan} {es : List Event} (files : es.filter (fun e => !e.isFile) = []) :
    (run s es).outcome = s.outcome := by
  induction es generalizing s with
  | nil => rfl
  | cons e es ih =>
    rw [List.filter_cons] at files
    split at files
    · cases files
    · next file =>
      have file : e.isFile = true := by simpa using file
      exact (ih files).trans (step_file file).2.2

/-- The reply in its pieces, and then the end: the outcome is the verdict on the text. -/
theorem run_reply {s : Scan} (unsettled : s.settled = false) {pieces : List Bytes} {es : List Event}
    (order : es.filter (fun e => !e.isFile) = pieces.map .data ++ [.ended]) :
    (run s es).outcome = some (verdict (s.response ++ pieces.flatMap decode)) := by
  induction es generalizing s pieces with
  | nil => exact absurd order (by simp)
  | cons e es ih =>
    by_cases file : e.isFile = true
    · obtain ⟨response, settled, -⟩ := step_file (s := s) file
      rw [List.filter_cons, if_neg (by simp [file])] at order
      have rest := ih (s := step s e) (settled.trans unsettled) order
      rwa [response] at rest
    · rw [List.filter_cons, if_pos (by simpa using file)] at order
      cases pieces with
      | nil =>
        obtain ⟨rfl, rest⟩ := List.cons.inj order
        have done :
            step s .ended = { s with settled := true, outcome := some (verdict s.response) } := by
          simp [step, unsettled]
        have outcome : (run s (.ended :: es)).outcome = (step s .ended).outcome := run_files rest
        rw [outcome, done]
        simp
      | cons piece pieces =>
        obtain ⟨rfl, rest⟩ := List.cons.inj order
        have := ih (s := step s (.data piece)) unsettled rest
        rw [List.flatMap_cons, ← List.append_assoc]
        exact this

/-! ## Searching the text -/

section Terminator
variable {text : List Char}

theorem dropWhile_ends (h : text.getLast? = some '\x00') :
    (text.dropWhile isSpace).getLast? = some '\x00' := by
  induction text with
  | nil => cases h
  | cons c text ih =>
    rw [List.dropWhile_cons]
    split
    · next space =>
      cases text with
      | nil =>
        cases h
        exact absurd space (by decide)
      | cons d text => exact ih (by rwa [List.getLast?_cons_cons] at h)
    · exact h

/-- NUL is no white space, so nothing is trimmed after it. -/
theorem trimEnd_ends (h : text.getLast? = some '\x00') : trimEnd text = text := by
  obtain ⟨t, rfl⟩ := List.getLast?_eq_some_iff.mp h
  rw [trimEnd, List.reverse_append, List.reverse_singleton, List.singleton_append,
    List.dropWhile_cons,
    if_neg (by decide)]
  simp

theorem withoutStream_ends (h : text.getLast? = some '\x00') :
    (withoutStream text).getLast? = some '\x00' := by
  unfold withoutStream
  split
  · next starts =>
    obtain ⟨rest, rfl⟩ := List.isPrefixOf_iff_prefix.mp starts
    apply dropWhile_ends
    cases rest with
    | nil => exact absurd h (by decide)
    | cons c rest =>
      rw [List.getLast?_append_cons] at h
      exact h
  · exact h

/-- The anchored pattern never reaches the word in front of the terminator. -/
theorem withoutFound_ends (h : text.getLast? = some '\x00') : withoutFound text = text := by
  refine if_neg fun ends => ?_
  obtain ⟨front, rfl⟩ := List.isSuffixOf_iff_suffix.mp ends
  rw [List.getLast?_append] at h
  exact absurd h (by simp)

/-- The signature of a terminated text holds the terminator. -/
theorem verdict_found (h : text.getLast? = some '\x00') (found : "FOUND".toList <:+: text) :
    ∃ signature : String, verdict text = .ok ⟨false, some signature⟩ ∧
    '\x00' ∈ signature.toList := by
  have trimmed : (trim text).getLast? = some '\x00' := by
    rw [trim, trimEnd_ends (dropWhile_ends h)]
    exact dropWhile_ends h
  have inside : "FOUND".toList <:+: trim text :=
    (infix_trim (by decide) (by decide) (by decide)).mpr found
  refine ⟨_, if_pos (decide_eq_true inside), ?_⟩
  rw [withoutFound_ends (withoutStream_ends trimmed), String.toList_ofList]
  exact List.mem_of_getLast? (withoutStream_ends trimmed)

theorem verdict_ok (found : ¬ "FOUND".toList <:+: text) (ok : "OK".toList <:+: text) :
    verdict text = .ok ⟨true, none⟩ := by
  rw [← infix_trim (by decide) (by decide) (by decide)] at found ok
  simp only [verdict, includes, decide_eq_false found, decide_eq_true ok]
  rfl

theorem verdict_neither (found : ¬ "FOUND".toList <:+: text) (ok : ¬ "OK".toList <:+: text) :
    ∃ message, verdict text = .error message := by
  rw [← infix_trim (by decide) (by decide) (by decide)] at found ok
  simp only [verdict, includes, decide_eq_false found, decide_eq_false ok]
  exact ⟨_, rfl⟩

end Terminator

/-! ## Replies -/

/-- What the protocol says about an outcome for a reply. -/
structure ByGrammar (reply : Bytes) (outcome : Option (Except String ScanResult)) : Prop where
  clean : (∃ r, outcome = some (.ok r) ∧ r.clean = true) ↔ reply = utf8 "stream: OK"
  found : ∀ s : String, reply = utf8 ("stream: " ++ s ++ " FOUND") →
    outcome = some (.ok ⟨false, some s⟩)
  other : reply ≠ utf8 "stream: OK" → (∀ s : String, reply ≠ utf8 ("stream: " ++ s ++ " FOUND")) →
    ∃ message, outcome = some (.error message)

theorem utf8_append (s t : String) : utf8 (s ++ t) = utf8 s ++ utf8 t := by
  simp [utf8]

theorem found_occurs (s : String) : utf8 "FOUND" <:+: utf8 ("stream: " ++ s ++ " FOUND") := by
  have front : utf8 " FOUND" = utf8 " " ++ utf8 "FOUND" := rfl
  rw [utf8_append, front, ← List.append_assoc]
  exact (List.suffix_append _ _).isInfix

theorem nul_encoded {s : String} (h : '\x00' ∈ s.toList) : 0 ∈ utf8 s :=
  List.mem_flatMap.mpr ⟨_, h, by decide⟩

/-- The terminator completes no word. -/
theorem occurs_terminated {word reply : Bytes} (nonempty : word ≠ []) (terminator : 0 ∉ word) :
    word <:+: reply ++ [0] ↔ word <:+: reply := by
  rw [List.infix_concat_iff, or_iff_right]
  intro ends
  obtain ⟨front, x, rfl⟩ := (List.eq_nil_or_concat' word).resolve_left nonempty
  have last : x = 0 := by
    obtain ⟨more, h⟩ := ends
    rw [← List.append_assoc] at h
    exact (List.append_inj_right' h rfl |> List.cons.inj).1
  exact terminator (last ▸ List.mem_append_right front List.mem_cons_self)

/-- A word occurs in the text exactly when it occurs in the reply. -/
theorem occurs_reply {word : String} (all : word.toList.all fun c => c.toNat < 0x80)
    (nonempty : word.toList ≠ []) (bytes : utf8 word = asciiBytes word.toList)
    (terminator : 0 ∉ utf8 word) {reply : Bytes} {text : List Char}
    (rendered : Rendered (reply ++ [0]) text) :
    utf8 word <:+: reply ↔ word.toList <:+: text := by
  have ascii : Ascii word.toList := by simpa [Ascii] using all
  have some : utf8 word ≠ [] := by
    rw [bytes]
    simpa [asciiBytes] using nonempty
  rw [← occurs_terminated some terminator, bytes]
  exact rendered.occurs ascii nonempty

/-- The client follows the protocol exactly on the clean reply and on replies with neither
word of a verdict. -/
theorem reply_read_by_grammar (reply : Bytes) (whole : 0 ∉ reply) (pieces : List Bytes)
    (cut : pieces.flatten = reply ++ [0]) (es : List Event)
    (order : es.filter (fun e => !e.isFile) = pieces.map .data ++ [.ended]) :
    ByGrammar reply (run .initial es).outcome ↔
      reply = utf8 "stream: OK" ∨ ¬ utf8 "OK" <:+: reply ∧ ¬ utf8 "FOUND" <:+: reply := by
  have rendered := flatMap_decode_rendered pieces
  rw [cut] at rendered
  have outcome : (run .initial es).outcome = some (verdict (pieces.flatMap decode)) :=
    run_reply (s := .initial) rfl order
  rw [outcome]
  generalize pieces.flatMap decode = text at rendered
  have terminated : text.getLast? = some '\x00' :=
    rendered.ends (b := 0) (by decide +kernel) (by simp)
  have hasFound : utf8 "FOUND" <:+: reply ↔ "FOUND".toList <:+: text := by
    apply occurs_reply _ _ _ _ rendered <;> decide +kernel
  have hasOk : utf8 "OK" <:+: reply ↔ "OK".toList <:+: text := by
    apply occurs_reply _ _ _ _ rendered <;> decide +kernel
  by_cases found : utf8 "FOUND" <:+: reply
  · obtain ⟨signature, hv, nul⟩ := verdict_found terminated (hasFound.mp found)
    have notClean : reply ≠ utf8 "stream: OK" := by
      rintro rfl
      exact absurd found (by decide +kernel)
    refine iff_of_false (fun rules => ?_) (by rintro (h | h); exacts [notClean h, h.2 found])
    rw [hv] at rules
    by_cases named : ∃ s : String, reply = utf8 ("stream: " ++ s ++ " FOUND")
    · -- the signature of the row ends in the terminator, the one of the reply does not hold it
      obtain ⟨s, hs⟩ := named
      have same := rules.found s hs
      simp only [Option.some.injEq, Except.ok.injEq, ScanResult.mk.injEq, true_and] at same
      rw [hs, utf8_append, utf8_append, same.symm] at whole
      exact whole (List.mem_append_left _ (List.mem_append_right _ (nul_encoded nul)))
    · obtain ⟨message, error⟩ := rules.other notClean fun s hs => named ⟨s, hs⟩
      cases error
  · have unnamed : ∀ s : String, reply ≠ utf8 ("stream: " ++ s ++ " FOUND") := fun s hs =>
      found (hs ▸ found_occurs s)
    by_cases ok : utf8 "OK" <:+: reply
    · rw [verdict_ok (mt hasFound.mpr found) (hasOk.mp ok)]
      constructor
      · exact fun rules => .inl (rules.clean.mp ⟨_, rfl, rfl⟩)
      · rintro (clean | ⟨absent, -⟩)
        · refine ⟨iff_of_true ⟨_, rfl, rfl⟩ clean, fun s hs => absurd hs (unnamed s), ?_⟩
          exact fun other _ => absurd clean other
        · exact absurd ok absent
    · obtain ⟨message, hv⟩ := verdict_neither (mt hasFound.mpr found) (mt hasOk.mpr ok)
      have notClean : reply ≠ utf8 "stream: OK" := by
        rintro rfl
        exact ok (by decide +kernel)
      rw [hv]
      refine iff_of_true ⟨iff_of_false ?_ notClean, fun s hs => absurd hs (unnamed s), ?_⟩
        (.inr ⟨ok, found⟩)
      · rintro ⟨r, hr, -⟩
        cases hr
      · exact fun _ _ => ⟨message, rfl⟩

/-- The clean reply in two pieces. -/
theorem reply_read_by_grammar_sample :
    ByGrammar (utf8 "stream: OK")
      (run .initial [.connect, .fileEnd, .data (utf8 "stream: O"), .data (utf8 "K\x00"),
        .ended]).outcome :=
  (reply_read_by_grammar (utf8 "stream: OK") (by decide +kernel) [utf8 "stream: O", utf8 "K\x00"]
    (by decide +kernel)
    [.connect, .fileEnd, .data (utf8 "stream: O"), .data (utf8 "K\x00"), .ended] rfl).mpr (.inl rfl)

/-- The test virus: the signature carries the word of the verdict and the terminator. -/
theorem infected_reply_misread :
    (run .initial [.data (utf8 "stream: Eicar-Test-Signature FOUND\x00"), .ended]).outcome =
      some (.ok ⟨false, some "Eicar-Test-Signature FOUND\x00"⟩) ∧
    ¬ ByGrammar (utf8 "stream: Eicar-Test-Signature FOUND")
      (run .initial [.data (utf8 "stream: Eicar-Test-Signature FOUND\x00"), .ended]).outcome := by
  have misread :
      (run .initial [.data (utf8 "stream: Eicar-Test-Signature FOUND\x00"), .ended]).outcome =
      some (.ok ⟨false, some "Eicar-Test-Signature FOUND\x00"⟩) := by
    decide +kernel
  refine ⟨misread, fun rules => ?_⟩
  have named := rules.found "Eicar-Test-Signature" (by decide +kernel)
  rw [misread] at named
  exact absurd named (by decide +kernel)

end ClamdClient
