import Mathlib.Data.List.Infix

/-!
The event stream format (`text/event-stream`): what a client makes of the text, one character after the
other, and blocks of fields that it reads back.
-/

namespace EventStream

structure Message where
  lastEventId : List Char
  event : List Char
  data : List Char
  deriving DecidableEq, Repr

structure Decoder where
  -- the line so far
  line : List Char
  -- a line feed would still belong to the carriage return before it
  afterReturn : Bool
  data : List Char
  event : List Char
  idBuffer : List Char
  lastEventId : List Char
  reconnectionTime : Option ℕ
  deriving DecidableEq, Repr

def decimal (digits : List Char) : ℕ := digits.foldl (fun n c => 10 * n + (c.toNat - '0'.toNat)) 0

namespace Decoder

/-- A new connection begins with the id that the client has sent. -/
def reconnect (d : Decoder) : Decoder :=
  { d with line := [], afterReturn := false, data := [], event := [], idBuffer := d.lastEventId }

def start : Decoder := ⟨[], false, [], [], [], [], none⟩

def field (d : Decoder) (name value : List Char) : Decoder :=
  if name = "event".toList then { d with event := value }
  else if name = "data".toList then { d with data := d.data ++ value ++ ['\n'] }
  else if name = "id".toList then
    if '\x00' ∈ value then d else { d with idBuffer := value }
  else if name = "retry".toList then
    if value ≠ [] ∧ value.all Char.isDigit then { d with reconnectionTime := some (decimal value) } else d
  else d

section Fields

variable {d : Decoder} {value : List Char}

theorem field_event : d.field "event".toList value = { d with event := value } := if_pos rfl

theorem field_data : d.field "data".toList value = { d with data := d.data ++ value ++ ['\n'] } := by
  rw [field, if_neg (by decide), if_pos rfl]

theorem field_id (h : '\x00' ∉ value) : d.field "id".toList value = { d with idBuffer := value } := by
  rw [field, if_neg (by decide), if_neg (by decide), if_pos rfl, if_neg h]

theorem field_retry (h : value ≠ [] ∧ value.all Char.isDigit) :
    d.field "retry".toList value = { d with reconnectionTime := some (decimal value) } := by
  rw [field, if_neg (by decide), if_neg (by decide), if_neg (by decide), if_pos rfl, if_pos h]

end Fields

/-- A blank line: the event is dispatched if there are data. -/
def dispatch (d : Decoder) : Decoder × Option Message :=
  ({ d with lastEventId := d.idBuffer, data := [], event := [] },
    if d.data = [] then none
    else some ⟨d.idBuffer, if d.event = [] then "message".toList else d.event, d.data.dropLast⟩)

theorem dispatch_message {d : Decoder} {data : List Char} (hdata : d.data = data ++ ['\n']) (hevent : d.event ≠ []) :
    d.dispatch.2 = some ⟨d.idBuffer, d.event, data⟩ := by
  simp [dispatch, hdata, hevent]

-- what stands behind the first colon, without the space that may follow on it
def valueOf (line : List Char) : List Char :=
  match line.dropWhile (· ≠ ':') with
  | ':' :: ' ' :: value => value
  | ':' :: value => value
  | _ => []

def endLine (d : Decoder) : Decoder × Option Message :=
  if d.line = [] then d.dispatch
  -- a comment
  else if d.line.head? = some ':' then ({ d with line := [] }, none)
  else ({ d.field (d.line.takeWhile (· ≠ ':')) (valueOf d.line) with line := [] }, none)

def step (d : Decoder) (c : Char) : Decoder × Option Message :=
  if c = '\n' then
    if d.afterReturn then ({ d with afterReturn := false }, none) else d.endLine
  else if c = '\r' then ({ d.endLine.1 with afterReturn := true }, d.endLine.2)
  else ({ d with line := d.line ++ [c], afterReturn := false }, none)

def feed (d : Decoder) : List Char → Decoder × List Message
  | [] => (d, [])
  | c :: text => (((d.step c).1.feed text).1, (d.step c).2.toList ++ ((d.step c).1.feed text).2)

variable {d : Decoder} {text text' : List Char}

theorem feed_append : d.feed (text ++ text') =
    (((d.feed text).1.feed text').1, (d.feed text).2 ++ ((d.feed text).1.feed text').2) := by
  induction text generalizing d with
  | nil => rfl
  | cons c text ih => simp only [List.cons_append, feed, ih, List.append_assoc]

structure AtLine (d : Decoder) : Prop where
  line : d.line = []
  afterReturn : d.afterReturn = false

def IsPlain (text : List Char) : Prop := ∀ c ∈ text, c ≠ '\n' ∧ c ≠ '\r'

theorem feed_plain (h : IsPlain text) (hd : d.afterReturn = false) :
    d.feed text = ({ d with line := d.line ++ text }, []) := by
  induction text generalizing d with
  | nil => simp [feed]
  | cons c text ih =>
    obtain ⟨hfeed, hreturn⟩ := h c List.mem_cons_self
    have hstep : d.step c = ({ d with line := d.line ++ [c] }, none) := by simp [step, hfeed, hreturn, hd]
    have hrest := ih (d := { d with line := d.line ++ [c] }) (fun c hc => h c (List.mem_cons_of_mem _ hc)) hd
    rw [feed, hstep]
    simp [hrest]

theorem feed_newline (hd : d.afterReturn = false) : d.feed ['\n'] = (d.endLine.1, d.endLine.2.toList) := by
  simp [feed, step, hd]

theorem field_atLine (h : d.AtLine) (name value : List Char) : (d.field name value).AtLine := by
  unfold field
  split_ifs <;> exact ⟨h.line, h.afterReturn⟩

end Decoder

section Blocks

def fieldText (field : List Char × List Char) : List Char := field.1 ++ ':' :: ' ' :: (field.2 ++ ['\n'])

def block (fields : List (List Char × List Char)) : List Char := fields.flatMap fieldText ++ ['\n']

structure OnLine (field : List Char × List Char) : Prop where
  nonempty : field.1 ≠ []
  name : ∀ c ∈ field.1, c ≠ ':' ∧ c ≠ '\n' ∧ c ≠ '\r'
  value : Decoder.IsPlain field.2

namespace Decoder

variable {d : Decoder}

theorem OnLine.plain {field : List Char × List Char} (h : OnLine field) :
    IsPlain (field.1 ++ ':' :: ' ' :: field.2) := by
  intro c hc
  simp only [List.mem_append, List.mem_cons] at hc
  rcases hc with hc | rfl | rfl | hc
  · exact (h.name c hc).2
  · decide
  · decide
  · exact h.value c hc

theorem field_line (name value line : List Char) :
    ({ d with line := line } : Decoder).field name value = { d.field name value with line := line } := by
  unfold field
  split_ifs <;> rfl

theorem feed_field {field : List Char × List Char} (h : OnLine field) (hd : d.AtLine) :
    d.feed (fieldText field) = (d.field field.1 field.2, []) := by
  obtain ⟨name, value⟩ := field
  have hname : ∀ c ∈ name, decide (c ≠ ':') = true := fun c hc => by simpa using (h.name c hc).1
  have hplain : IsPlain (name ++ ':' :: ' ' :: value) := OnLine.plain h
  have htake : (name ++ ':' :: ' ' :: value).takeWhile (· ≠ ':') = name := by
    rw [List.takeWhile_append_of_pos hname]
    simp
  have hvalue : valueOf (name ++ ':' :: ' ' :: value) = value := by
    unfold valueOf
    rw [List.dropWhile_append_of_pos hname]
    simp
  have hhead : (name ++ ':' :: ' ' :: value).head? ≠ some ':' := by
    cases name with
    | nil => exact absurd rfl h.nonempty
    | cons c name => simpa using (h.name c List.mem_cons_self).1
  have hend : ({ d with line := name ++ ':' :: ' ' :: value } : Decoder).endLine = (d.field name value, none) := by
    unfold endLine
    rw [if_neg (by simp), if_neg hhead]
    simp only [htake, hvalue, field_line]
    have hline : (d.field name value).line = [] := (field_atLine hd name value).line
    rw [← hline]
  have htext : fieldText (name, value) = (name ++ ':' :: ' ' :: value) ++ ['\n'] := by simp [fieldText]
  have hnewline : ({ d with line := name ++ ':' :: ' ' :: value } : Decoder).feed ['\n'] =
      (d.field name value, []) := by
    refine (feed_newline (by exact hd.afterReturn)).trans ?_
    rw [hend]
    rfl
  rw [htext, feed_append, feed_plain hplain hd.afterReturn, hd.line, List.nil_append, hnewline]
  rfl

def fields (d : Decoder) (fields : List (List Char × List Char)) : Decoder :=
  fields.foldl (fun d field => d.field field.1 field.2) d

theorem feed_fields {fields : List (List Char × List Char)} (h : ∀ field ∈ fields, OnLine field) (hd : d.AtLine) :
    d.feed (fields.flatMap fieldText) = (d.fields fields, []) ∧ (d.fields fields).AtLine := by
  induction fields generalizing d with
  | nil => exact ⟨rfl, hd⟩
  | cons field fields ih =>
    have hrest := ih (fun field hf => h field (List.mem_cons_of_mem _ hf)) (field_atLine hd field.1 field.2)
    rw [List.flatMap_cons, feed_append, feed_field (h field List.mem_cons_self) hd, hrest.1]
    exact ⟨rfl, hrest.2⟩

theorem feed_blank (hd : d.AtLine) : d.feed ['\n'] = (d.dispatch.1, d.dispatch.2.toList) := by
  rw [feed_newline hd.afterReturn, endLine, if_pos hd.line]

theorem feed_block {fields : List (List Char × List Char)} (h : ∀ field ∈ fields, OnLine field) (hd : d.AtLine) :
    d.feed (block fields) = ((d.fields fields).dispatch.1, (d.fields fields).dispatch.2.toList) := by
  obtain ⟨hfeed, hline⟩ := feed_fields h hd
  rw [block, feed_append, hfeed, feed_blank hline]
  rfl

theorem field_lastEventId (name value : List Char) : (d.field name value).lastEventId = d.lastEventId := by
  unfold field
  split_ifs <;> rfl

theorem feed_before_blank {fields : List (List Char × List Char)} (h : ∀ field ∈ fields, OnLine field) (hd : d.AtLine)
    {first : List Char} (hfirst : first <+: fields.flatMap fieldText) :
    (d.feed first).2 = [] ∧ (d.feed first).1.lastEventId = d.lastEventId := by
  induction fields generalizing d first with
  | nil =>
    obtain rfl := List.prefix_nil.mp hfirst
    exact ⟨rfl, rfl⟩
  | cons field fields ih =>
    have hfield := h field List.mem_cons_self
    have hline := OnLine.plain hfield
    have htext : fieldText field = (field.1 ++ ':' :: ' ' :: field.2) ++ ['\n'] := by simp [fieldText]
    rw [List.flatMap_cons] at hfirst
    by_cases hlength : (fieldText field).length ≤ first.length
    · obtain ⟨rest, rfl⟩ := List.prefix_of_prefix_length_le (List.prefix_append _ _) hfirst hlength
      have hrest := ih (fun field hf => h field (List.mem_cons_of_mem _ hf)) (field_atLine hd field.1 field.2)
        ((List.prefix_append_right_inj _).mp hfirst)
      rw [feed_append, feed_field hfield hd]
      exact ⟨hrest.1, hrest.2.trans (field_lastEventId field.1 field.2)⟩
    · have hwithin : first <+: field.1 ++ ':' :: ' ' :: field.2 := by
        refine List.prefix_of_prefix_length_le hfirst
          ((htext ▸ List.prefix_append _ _ : _ <+: fieldText field).trans (List.prefix_append _ _)) ?_
        rw [htext, List.length_append, List.length_singleton] at hlength
        omega
      rw [feed_plain (fun c hc => hline c (hwithin.subset hc)) hd.afterReturn]
      exact ⟨rfl, rfl⟩

structure Ready (d : Decoder) : Prop extends d.AtLine where
  data : d.data = []
  event : d.event = []
  idBuffer : d.idBuffer = d.lastEventId

theorem ready_reconnect : d.reconnect.Ready := ⟨⟨rfl, rfl⟩, rfl, rfl, rfl⟩

theorem AtLine.dispatch (hd : d.AtLine) : d.dispatch.1.Ready := ⟨⟨hd.line, hd.afterReturn⟩, rfl, rfl, rfl⟩

/-- The client has read some of the first of these blocks, and `text` is what it has still to read of them. -/
structure Unread (d : Decoder) (text : List Char) (blocks : List (List (List Char × List Char))) : Prop where
  split : ∃ origin first, Ready origin ∧ d = (origin.feed first).1 ∧ blocks.flatMap block = first ++ text ∧
    ∀ fields rest, blocks = fields :: rest → first.length < (block fields).length
  onLine : ∀ fields ∈ blocks, ∀ field ∈ fields, OnLine field

theorem length_block (fields : List (List Char × List Char)) : 0 < (block fields).length := by simp [block]

theorem Ready.unread (hd : d.Ready) {blocks : List (List (List Char × List Char))}
    (h : ∀ fields ∈ blocks, ∀ field ∈ fields, OnLine field) : d.Unread (blocks.flatMap block) blocks :=
  ⟨⟨d, [], hd, rfl, rfl, fun fields _ _ => length_block fields⟩, h⟩

theorem Unread.append {text : List Char} {blocks more : List (List (List Char × List Char))} (h : d.Unread text blocks)
    (hmore : ∀ fields ∈ more, ∀ field ∈ fields, OnLine field) :
    d.Unread (text ++ more.flatMap block) (blocks ++ more) := by
  obtain ⟨⟨origin, first, horigin, hd, hsplit, hfirst⟩, honLine⟩ := h
  refine ⟨⟨origin, first, horigin, hd, ?_, fun fields rest heq => ?_⟩, fun fields hmem => ?_⟩
  · rw [List.flatMap_append, hsplit, List.append_assoc]
  · cases blocks with
    | nil =>
      obtain ⟨rfl, -⟩ := List.append_eq_nil_iff.mp hsplit.symm
      exact length_block fields
    | cons fields' blocks =>
      obtain ⟨rfl, -⟩ := List.cons.inj heq
      exact hfirst _ _ rfl
  · rcases List.mem_append.mp hmem with hmem | hmem
    · exact honLine fields hmem
    · exact hmore fields hmem

theorem Unread.nil {blocks : List (List (List Char × List Char))} (h : d.Unread [] blocks) : blocks = [] := by
  obtain ⟨⟨origin, first, -, -, hsplit, hfirst⟩, -⟩ := h
  cases blocks with
  | nil => rfl
  | cons fields rest =>
    have hlength := hfirst fields rest rfl
    rw [List.append_nil] at hsplit
    rw [← hsplit, List.flatMap_cons, List.length_append] at hlength
    omega

theorem Unread.step {c : Char} {text : List Char} {blocks : List (List (List Char × List Char))}
    (h : d.Unread (c :: text) blocks) :
    ((d.step c).1.Unread text blocks ∧ (d.step c).2 = none ∧ (d.step c).1.lastEventId = d.lastEventId) ∨
      ∃ fields rest origin, blocks = fields :: rest ∧ Ready origin ∧ origin.lastEventId = d.lastEventId ∧
      (d.step c).1.Unread text rest ∧ d.step c = (origin.fields fields).dispatch := by
  obtain ⟨⟨origin, first, horigin, rfl, hsplit, hfirst⟩, honLine⟩ := h
  cases blocks with
  | nil => simp at hsplit
  | cons fields rest =>
    have hfields := honLine fields List.mem_cons_self
    have hlength := hfirst fields rest rfl
    have hsnoc : (origin.feed (first ++ [c])) = (((origin.feed first).1.step c).1,
        (origin.feed first).2 ++ ((origin.feed first).1.step c).2.toList) := by
      rw [feed_append]
      simp [feed]
    have hprefix : first ++ [c] <+: block fields := by
      have hwhole : first ++ [c] <+: (fields :: rest).flatMap block := ⟨text, by rw [hsplit, List.append_assoc]; rfl⟩
      refine List.prefix_of_prefix_length_le hwhole (List.prefix_append _ _) ?_
      rw [List.length_append]
      exact hlength
    have hbefore : first <+: fields.flatMap fieldText := by
      refine List.prefix_of_prefix_length_le ((List.prefix_append _ _).trans hprefix) (List.prefix_append _ _) ?_
      simp only [block, List.length_append, List.length_singleton] at hlength
      omega
    obtain ⟨hsilent, hid⟩ := feed_before_blank hfields horigin.toAtLine hbefore
    obtain ⟨tail, htail⟩ := hprefix
    cases tail with
    | nil =>
      rw [List.append_nil] at htail
      have hblock := feed_block hfields horigin.toAtLine
      rw [← htail, hsnoc, hsilent, List.nil_append] at hblock
      obtain ⟨hclient, hmessage⟩ := Prod.mk.inj hblock
      have hmessage : ((origin.feed first).1.step c).2 = (origin.fields fields).dispatch.2 := by
        simpa using congrArg List.head? hmessage
      have hrest : rest.flatMap block = text := by
        rw [List.flatMap_cons, ← htail, List.append_assoc] at hsplit
        exact (List.cons.inj (List.append_cancel_left hsplit)).2
      refine .inr ⟨fields, rest, origin, rfl, horigin, hid.symm, ?_, Prod.ext hclient hmessage⟩
      rw [hclient, ← hrest]
      exact (feed_fields hfields horigin.toAtLine).2.dispatch.unread fun fields hmem =>
        honLine fields (List.mem_cons_of_mem _ hmem)
    | cons e tail =>
      have hmore : first ++ [c] <+: fields.flatMap fieldText := by
        have hlengths := congrArg List.length htail
        refine List.prefix_of_prefix_length_le ⟨e :: tail, htail⟩ (List.prefix_append _ _) ?_
        simp only [block, List.length_append, List.length_cons, List.length_nil] at hlengths ⊢
        omega
      have hstep := feed_before_blank hfields horigin.toAtLine hmore
      rw [hsnoc, hsilent, List.nil_append] at hstep
      refine .inl ⟨⟨⟨origin, first ++ [c], horigin, by rw [hsnoc], ?_, ?_⟩, honLine⟩,
        Option.toList_eq_nil_iff.mp hstep.1, hstep.2.trans hid.symm⟩
      · rw [hsplit, List.append_assoc]
        rfl
      · rintro _ _ heq
        obtain ⟨rfl, -⟩ := List.cons.inj heq
        rw [← htail]
        simp

end Decoder

end Blocks

end EventStream
