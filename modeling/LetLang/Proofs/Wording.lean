import LetLang.Proofs.Messages

/-!
# `LetLang.Proofs.Wording` — a line of the log tells its event

The log shows messages, and a reader of the log has nothing else to tell the events by. It is enough: the
messages of each sort of event begin with words of their own, and no such words are the beginning of those of
another sort. So the lines that begin with the words of a sort are the lines of its events. What follows the
words tells the data of the event, since each part of it is told by its text, and ends where no text of its
kind goes on.

## Contents
- `Event.opening`, `Event.detail`, with `Event.message_eq`: the words of a sort, and what follows them.
- `Event.startsWith_line_iff`: a line that begins with the words of a sort is one of that sort.
- `Event.filter_line`: the lines of a sort, by the data of its events.
- `Event.line_inj`: a line tells its event.
- `Parser.log_trace`, `Parser.log_debug`: what the log shows at the two finest levels.
-/

namespace LetLang

open Text

namespace Event

/-! ## The sorts of events -/

/-- The words that the messages of a sort of event begin with. -/
def opening : Event → String
  | illegalByte _ _ => "illegal byte "
  | advanced _ => "advanced to "
  | statement _ => "statement starting at "
  | operator _ _ => "infix "
  | syntaxError _ => "syntax error: "
  | finished _ _ => "parsed program: "

/-- What follows these words. -/
def detail : Event → String
  | illegalByte byte offset => hexByte byte ++ (" at offset " ++ decimal offset)
  | advanced token => token.render
  | statement kind => kind.name
  | operator kind power => kind.name ++ (" at " ++ power.name)
  | syntaxError diagnostic => diagnostic.message
  | finished statements diagnostics =>
    decimal statements ++ (" statements, " ++ (decimal diagnostics ++ " errors"))

/-- The words of all sorts. -/
def openings : List String :=
  ["illegal byte ", "advanced to ", "statement starting at ", "infix ", "syntax error: ",
    "parsed program: "]

theorem message_eq (event : Event) : event.message = event.opening ++ event.detail := by
  cases event with
  | illegalByte byte offset =>
      show "illegal byte " ++ hexByte byte ++ " at offset " ++ decimal offset =
        "illegal byte " ++ (hexByte byte ++ (" at offset " ++ decimal offset))
      rw [String.append_assoc, String.append_assoc]
  | operator kind power =>
      show "infix " ++ kind.name ++ " at " ++ power.name =
        "infix " ++ (kind.name ++ (" at " ++ power.name))
      rw [String.append_assoc, String.append_assoc]
  | finished statements diagnostics =>
      show "parsed program: " ++ decimal statements ++ " statements, " ++ decimal diagnostics ++
          " errors" =
        "parsed program: " ++ (decimal statements ++ (" statements, " ++ (decimal diagnostics ++ " errors")))
      simp only [String.append_assoc]
  | advanced | statement | syntaxError => rfl

theorem opening_mem (event : Event) : event.opening ∈ openings := by
  cases event <;> simp [opening, openings]

/-- No words of a sort begin with those of another. -/
theorem openings_apart {words others : String} (hwords : words ∈ openings) (hothers : others ∈ openings)
    (h : words.toList <+: others.toList) : words = others := by
  have hall : ∀ words ∈ openings, ∀ others ∈ openings,
      words.toList <+: others.toList → words = others := by decide
  exact hall words hwords others hothers h

theorem message_begins (event : Event) : event.opening.toList <+: event.message.toList := by
  rw [message_eq, String.toList_append]
  exact List.prefix_append _ _

/-- **A message that begins with the words of a sort is one of that sort.** -/
theorem startsWith_line_iff {words : String} (hwords : words ∈ openings) (event : Event) :
    event.line.2.startsWith words = true ↔ event.opening = words := by
  show event.message.startsWith words = true ↔ _
  rw [String.startsWith_string_iff]
  constructor
  · intro h
    rcases List.prefix_or_prefix_of_prefix h event.message_begins with hbegins | hbegins
    · exact (openings_apart hwords event.opening_mem hbegins).symm
    · exact openings_apart event.opening_mem hwords hbegins
  · rintro rfl
    exact event.message_begins

/-- **The lines that begin with the words of a sort are those of its events**, by the data `f` of these. -/
theorem filter_line {α : Type} {f : Event → Option α} {line : α → Level × String} {words : String}
    (hwords : words ∈ openings) (hf : ∀ event, event.opening = words ↔ (f event).isSome = true)
    (hline : ∀ event, ∀ a ∈ f event, event.line = line a) (events : List Event) :
    (events.map Event.line).filter (·.2.startsWith words) = (events.filterMap f).map line := by
  induction events with
  | nil => rfl
  | cons event events ih =>
      have hstarts := (startsWith_line_iff hwords event).trans (hf event)
      rw [List.map_cons]
      cases hdata : f event with
      | none =>
          rw [hdata] at hstarts
          rw [List.filter_cons_of_neg (by simp [hstarts]), List.filterMap_cons_none hdata, ih]
      | some a =>
          rw [hdata] at hstarts
          rw [List.filter_cons_of_pos (by simp [hstarts]), List.filterMap_cons_some hdata, ih,
            List.map_cons, hline event a hdata]

/-! ## The data of an event -/

/-- The two digits of a byte are read back. -/
theorem hexValue_hexByte (byte : UInt8) : hexValue ((hexByte byte).toList.drop 2) = byte.toNat := by
  have hlt := byte.toNat_lt
  have hhigh : byte.toNat / 16 < 16 := by omega
  have hlow : byte.toNat % 16 < 16 := by omega
  have hdigits : (hexByte byte).toList.drop 2 =
      [Nat.digitChar (byte.toNat / 16)] ++ [Nat.digitChar (byte.toNat % 16)] := by
    rw [hexByte, String.toList_ofList]
    rfl
  rw [hdigits, hexValue_concat, hexDigitValue_digitChar hlow]
  show 16 * (16 * 0 + hexDigitValue (Nat.digitChar (byte.toNat / 16))) + _ = _
  rw [hexDigitValue_digitChar hhigh]
  omega

theorem hexByte_inj {byte other : UInt8} (h : hexByte byte = hexByte other) : byte = other := by
  have hvalue := hexValue_hexByte byte
  rw [h, hexValue_hexByte] at hvalue
  exact UInt8.toNat_inj.mp hvalue.symm

theorem decimal_inj {n m : Nat} (h : decimal n = decimal m) : n = m := by
  have hvalue := digitsValue_decimal n
  rw [h, digitsValue_decimal] at hvalue
  exact hvalue.symm

theorem power_name_inj {p q : Power} (h : p.name = q.name) : p = q := by
  revert h
  cases p <;> cases q <;> decide

/-! No part of the data has a space in its text, so it ends where a space follows. -/

theorem space_not_mem_hexByte (byte : UInt8) : ' ' ∉ (hexByte byte).toList := by
  have hdigit : ∀ n < 16, ' ' ≠ Nat.digitChar n := by decide
  have hlt := byte.toNat_lt
  have hhigh := hdigit (byte.toNat / 16) (by omega)
  have hlow := hdigit (byte.toNat % 16) (by omega)
  simp [hexByte, hhigh, hlow]

theorem space_not_mem_decimal (n : Nat) : ' ' ∉ (decimal n).toList := by
  intro hmem
  exact absurd ((isNumeral_decimal n).2 ' ' hmem) (by decide)

/-- Texts without a space are told from what follows, if this begins with a space. -/
theorem append_inj_of_space {text other words rest more : String} (htext : ' ' ∉ text.toList)
    (hother : ' ' ∉ other.toList) (hwords : words.toList.head? = some ' ')
    (h : text ++ (words ++ rest) = other ++ (words ++ more)) : text = other ∧ rest = more := by
  obtain ⟨behind, hbehind⟩ := List.head?_eq_some_iff.mp hwords
  have hlist := String.toList_inj.mpr h
  simp only [String.toList_append, hbehind, List.cons_append] at hlist
  obtain ⟨hfront, hback⟩ := append_cons_cancel htext hother hlist
  exact ⟨String.toList_inj.mp hfront, String.toList_inj.mp (List.append_cancel_left hback)⟩

/-- What follows the words tells the data. -/
theorem detail_inj {event other : Event} (hopening : event.opening = other.opening)
    (h : event.detail = other.detail) : event = other := by
  cases event with
  | illegalByte byte offset =>
      cases other with
      | illegalByte byte' offset' =>
          obtain ⟨hbyte, hoffset⟩ := append_inj_of_space (space_not_mem_hexByte byte)
            (space_not_mem_hexByte byte') (by decide) h
          rw [hexByte_inj hbyte, decimal_inj hoffset]
      | _ => exact absurd hopening (by simp only [opening]; decide)
  | advanced token =>
      cases other with
      | advanced token' => rw [Token.renderWith_inj h]
      | _ => exact absurd hopening (by simp only [opening]; decide)
  | statement kind =>
      cases other with
      | statement kind' => rw [Kind.name_inj h]
      | _ => exact absurd hopening (by simp only [opening]; decide)
  | operator kind power =>
      cases other with
      | operator kind' power' =>
          obtain ⟨hkind, hpower⟩ := append_inj_of_space (Kind.not_mem_name kind).1
            (Kind.not_mem_name kind').1 (by decide) h
          rw [Kind.name_inj hkind, power_name_inj hpower]
      | _ => exact absurd hopening (by simp only [opening]; decide)
  | syntaxError diagnostic =>
      cases other with
      | syntaxError diagnostic' => rw [Diagnostic.messageWith_inj h]
      | _ => exact absurd hopening (by simp only [opening]; decide)
  | finished statements diagnostics =>
      cases other with
      | finished statements' diagnostics' =>
          obtain ⟨hstatements, hrest⟩ := append_inj_of_space (space_not_mem_decimal statements)
            (space_not_mem_decimal statements') (by decide) h
          rw [decimal_inj hstatements, decimal_inj ((String.append_left_inj _).mp hrest)]
      | _ => exact absurd hopening (by simp only [opening]; decide)

/-- **A line tells its event**, sort and data. -/
theorem line_inj {event other : Event} (h : event.line = other.line) : event = other := by
  have hopening : event.opening = other.opening := by
    rw [← startsWith_line_iff other.opening_mem event, h, startsWith_line_iff other.opening_mem]
  refine detail_inj hopening ?_
  have hmessage : event.message = other.message := congrArg Prod.snd h
  rw [message_eq, message_eq, hopening] at hmessage
  exact (String.append_right_inj _).mp hmessage

end Event

namespace Parser

/-- At the finest level the log shows everything. -/
theorem log_trace (s : Parser) : s.log .trace = s.journal.toList.map Event.line := by
  have hall : s.journal.toList.filter (fun event => Level.trace.shows event.level) =
      s.journal.toList := by
    rw [List.filter_eq_self]
    intro event _
    cases event <;> rfl
  rw [log, hall]

/-- At the level before, it shows the coarse lines. -/
theorem log_debug (s : Parser) : s.log .debug = (s.log .trace).filter (·.1 = .debug) := by
  have hcoarse : ∀ event : Event, Level.debug.shows event.level = decide (event.level = .debug) := by
    intro event
    cases event <;> rfl
  rw [log_trace, List.filter_map, log]
  simp only [hcoarse]
  rfl

end Parser

end LetLang
