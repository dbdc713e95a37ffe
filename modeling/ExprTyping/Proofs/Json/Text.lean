import ExprTyping.Json.Reader
import ExprTyping.Json.Writer
import Mathlib.Data.List.TakeWhile

/-!
# Reading back what is written

Each reader of a token gives back what was written, whatever follows it: `Json.Ends.number` for
numbers, where the text after the number must not go on with it, and `Json.literal?_writeLiteral`
for literals. From these, `Json.value?_write` goes by the structure of the value.

Main statement: `Json.ofText?_render`.
-/

namespace ExprTyping.Json

/-! ## Numbers -/

/-- A reader of a part of a text does the same where more text follows. -/
def Extends (read : List Char → Option (List Char × List Char)) (after : List Char) : Prop :=
  ∀ text out rest, read text = some (out, rest) → read (text ++ after) = some (out, rest ++ after)

/-- No number goes on with this text. -/
def Ends (after : List Char) : Prop :=
  ∀ c ∈ after.head?, c.isDigit = false ∧ c ≠ '.' ∧ c ≠ 'e' ∧ c ≠ 'E'

variable {after : List Char}

theorem Ends.digits (ends : Ends after) : Extends digits? after := by
  intro text out rest h
  have none : after.takeWhile Char.isDigit = [] ∧ after.dropWhile Char.isDigit = after := by
    cases after with
    | nil => exact ⟨rfl, rfl⟩
    | cons c after => simp [(ends c rfl).1]
  have same : (text ++ after).takeWhile Char.isDigit = text.takeWhile Char.isDigit := by
    rw [List.takeWhile_append, none.1]
    split
    · next all => 
      rw [List.append_nil, (List.takeWhile_prefix _).eq_of_length all]
    · rfl
  have left : (text ++ after).dropWhile Char.isDigit = text.dropWhile Char.isDigit ++ after := by
    rw [List.dropWhile_append, none.2]
    split
    · next empty => rw [List.isEmpty_iff.1 empty, List.nil_append]
    · rfl
  unfold digits? at h ⊢
  rw [same, left]
  revert h
  split
  · simp
  · simp +contextual

theorem Ends.wholePart (ends : Ends after) : Extends wholePart? after := by
  intro text out rest h
  unfold wholePart? at h
  split at h
  · obtain ⟨rfl, rfl⟩ := Prod.mk.inj (Option.some.inj h)
    rfl
  · next zero =>
    cases text with
    | nil => cases h
    | cons c text =>
      have other : c ≠ '0' := fun same => zero text (same ▸ rfl)
      rw [← ends.digits _ out rest h]
      simp [wholePart?, other]

theorem Ends.fraction (ends : Ends after) : Extends fraction? after := by
  intro text out rest h
  unfold fraction? at h
  split at h
  · next text =>
    obtain ⟨⟨run, left⟩, read, h⟩ := Option.bind_eq_some_iff.1 h
    obtain ⟨rfl, rfl⟩ := Prod.mk.inj (Option.some.inj h)
    simp [fraction?, ends.digits _ _ _ read]
  · next point =>
    obtain ⟨rfl, rfl⟩ := Prod.mk.inj (Option.some.inj h)
    unfold fraction?
    split
    · next same =>
      cases text with
      | nil => exact absurd rfl (ends '.' (by simp_all)).2.1
      | cons c text => exact absurd ((List.cons.inj same).1 ▸ rfl) (point text)
    · rfl

theorem exponentSign_append {text sign unsigned : List Char} (nonempty : text ≠ [])
    (h : exponentSign text = (sign, unsigned)) :
    exponentSign (text ++ after) = (sign, unsigned ++ after) := by
  cases text with
  | nil => exact absurd rfl nonempty
  | cons c text =>
    by_cases signed : c = '+' ∨ c = '-'
    · rcases signed with rfl | rfl <;>
      · obtain ⟨rfl, rfl⟩ := Prod.mk.inj h
        rfl
    · have plain (tail : List Char) : exponentSign (c :: tail) = ([], c :: tail) := by
        rw [not_or] at signed
        simp [exponentSign, signed.1, signed.2]
      obtain ⟨rfl, rfl⟩ := Prod.mk.inj ((plain text).symm.trans h)
      exact plain (text ++ after)

theorem Ends.exponent (ends : Ends after) : Extends exponent? after := by
  intro text out rest h
  cases text with
  | nil =>
    obtain ⟨rfl, rfl⟩ := Prod.mk.inj (Option.some.inj h)
    cases after with
    | nil => rfl
    | cons c after =>
      obtain ⟨-, -, lower, upper⟩ := ends c rfl
      simp [exponent?, lower, upper]
  | cons c text =>
    rw [exponent?] at h
    rw [List.cons_append, exponent?]
    split at h
    · next letter =>
      rw [if_pos letter]
      rcases signed : exponentSign text with ⟨sign, unsigned⟩
      rw [signed] at h
      obtain ⟨⟨run, left⟩, read, h⟩ := Option.bind_eq_some_iff.1 h
      obtain ⟨rfl, rfl⟩ := Prod.mk.inj (Option.some.inj h)
      have nonempty : text ≠ [] := by
        rintro rfl
        obtain ⟨rfl, rfl⟩ := Prod.mk.inj signed
        cases read
      simp [exponentSign_append nonempty signed, ends.digits _ _ _ read]
    · next letter =>
      rw [if_neg letter]
      obtain ⟨rfl, rfl⟩ := Prod.mk.inj (Option.some.inj h)
      rfl

theorem Ends.magnitude (ends : Ends after) : Extends magnitude? after := by
  intro text out rest h
  obtain ⟨⟨whole, text₁⟩, readWhole, h⟩ := Option.bind_eq_some_iff.1 h
  obtain ⟨⟨fraction, text₂⟩, readFraction, h⟩ := Option.bind_eq_some_iff.1 h
  obtain ⟨⟨exponent, text₃⟩, readExponent, h⟩ := Option.bind_eq_some_iff.1 h
  obtain ⟨rfl, rfl⟩ := Prod.mk.inj (Option.some.inj h)
  simp [magnitude?, ends.wholePart _ _ _ readWhole, ends.fraction _ _ _ readFraction,
    ends.exponent _ _ _ readExponent]

theorem Ends.number (ends : Ends after) : Extends number? after := by
  intro text out rest h
  unfold number? at h
  split at h
  · obtain ⟨⟨digits, left⟩, read, h⟩ := Option.bind_eq_some_iff.1 h
    obtain ⟨rfl, rfl⟩ := Prod.mk.inj (Option.some.inj h)
    simp [number?, ends.magnitude _ _ _ read]
  · next minus =>
    rw [← ends.magnitude _ _ _ h]
    cases text with
    | nil => cases h
    | cons c text =>
      have other : c ≠ '-' := fun same => minus text (same ▸ rfl)
      simp [number?, other]

/-! ## Literals -/

/-- Where the piece stands first, the text starts with the character. -/
def Piece.Denotes (piece : Piece) (c : Char) : Prop :=
  ∀ pieces, assemble? (piece :: pieces) = (assemble? pieces).map (c :: ·)

theorem Piece.char_denotes (c : Char) : (Piece.char c).Denotes c := fun _ => rfl

theorem Piece.unit_denotes {code : Nat} (h : code < 0xD800) :
    (Piece.unit code).Denotes (Char.ofNat code) := by
  have high : isHighSurrogate code = false := by simp [isHighSurrogate]; omega
  have low : isLowSurrogate code = false := by simp [isLowSurrogate]; omega
  intro pieces
  match pieces with
  | [] => simp [assemble?, high, low]
  | .char c :: rest => simp [assemble?, high, low, Function.comp_def]
  | .unit next :: rest => simp [assemble?, high, low]

theorem codeUnit?_of_lt : ∀ code < 32,
    codeUnit? '0' '0' (Nat.digitChar (code / 16)) (Nat.digitChar (code % 16)) = some code := by
  decide

variable {text rest : List Char} {pieces : List Piece}

theorem pieces?_printable {c : Char} (quote : c ≠ '"') (backslash : c ≠ '\\') (printable : ¬c < ' ')
    (h : pieces? text = some (pieces, rest)) :
    pieces? (c :: text) = some (.char c :: pieces, rest) := by
  rw [pieces?.eq_def]
  split
  · next h => cases h
  · next h => exact absurd (List.cons.inj h).1 quote
  · next h => exact absurd (List.cons.inj h).1 backslash
  · next h => exact absurd (List.cons.inj h).1 backslash
  · next same =>
    obtain ⟨rfl, rfl⟩ := List.cons.inj same
    simp [printable, h]

theorem pieces?_escape (c : Char) : ∃ piece : Piece, piece.Denotes c ∧
    ∀ text pieces rest, pieces? text = some (pieces, rest) →
      pieces? (escape c ++ text) = some (piece :: pieces, rest) := by
  unfold escape
  split
  iterate 7
    exact ⟨_, Piece.char_denotes _, fun text pieces rest h => by simp [pieces?, escaped?, h]⟩
  next quote backslash _ _ _ _ _ =>
    split
    · next control =>
      have below : c.toNat < 32 := control
      have denotes := Piece.unit_denotes (show c.toNat < 0xD800 by omega)
      rw [Char.ofNat_toNat] at denotes
      exact ⟨_, denotes, fun text pieces rest h => by
        simp [pieces?, codeUnit?_of_lt c.toNat below, h]⟩
    · next printable =>
      exact ⟨_, Piece.char_denotes c, fun text pieces rest =>
        pieces?_printable quote backslash printable⟩

theorem pieces?_escapes (content rest : List Char) : ∃ pieces, assemble? pieces = some content ∧
    pieces? (content.flatMap escape ++ '"' :: rest) = some (pieces, rest) := by
  induction content with
  | nil => exact ⟨[], rfl, rfl⟩
  | cons c content ih =>
    obtain ⟨pieces, assembled, read⟩ := ih
    obtain ⟨piece, denotes, reads⟩ := pieces?_escape c
    refine ⟨piece :: pieces, by rw [denotes, assembled]; rfl, ?_⟩
    rw [List.flatMap_cons, List.append_assoc]
    exact reads _ _ _ read

theorem literal?_writeLiteral (content : Option String) (rest : List Char) :
    literal? (writeLiteral content ++ rest) = some (content, rest) := by
  cases content with
  | none => simp [writeLiteral, literal?, pieces?, codeUnit?, hexDigit?, assemble?, isHighSurrogate]
  | some content =>
    obtain ⟨pieces, assembled, read⟩ := pieces?_escapes content.toList rest
    simp [writeLiteral, literal?, read, assembled]

/-! ## Values -/

mutual

/-- All numbers in the value are spelled as numbers. -/
def Writable : Json → Prop
  | .number digits => number? digits.toList = some (digits.toList, [])
  | .array items => WritableItems items
  | .object members => WritableMembers members
  | _ => True

/-- All numbers in the values are spelled as numbers. -/
def WritableItems : List Json → Prop
  | [] => True
  | item :: rest => Writable item ∧ WritableItems rest

/-- All numbers in the members are spelled as numbers. -/
def WritableMembers : List (Option String × Json) → Prop
  | [] => True
  | (_, value) :: rest => Writable value ∧ WritableMembers rest

end

theorem skipBlanks_cons {c : Char} {text : List Char} (h : isBlank c = false) :
    skipBlanks (c :: text) = c :: text := by
  simp [skipBlanks, h]

/-- Whether a number may start with the character. -/
def opensNumber (c : Char) : Bool := c == '-' || c.isDigit

theorem number?_head {text rest out : List Char} (h : number? text = some (out, rest)) :
    ∃ c tail, text = c :: tail ∧ opensNumber c = true := by
  cases text with
  | nil => cases h
  | cons c tail =>
    refine ⟨c, tail, rfl, ?_⟩
    by_contra other
    have differs (d : Char) (hd : opensNumber d = true) : c ≠ d := fun same => other (same ▸ hd)
    have digit : c.isDigit = false := by simp_all [opensNumber]
    simp [number?, magnitude?, wholePart?, digits?, differs '-' rfl, differs '0' rfl, digit] at h

theorem ne_of_opensNumber {c d : Char} (h : opensNumber c = true) (hd : opensNumber d = false) :
    c ≠ d := by
  rintro rfl
  rw [h] at hd
  cases hd

theorem not_isBlank_of_opensNumber {c : Char} (h : opensNumber c = true) : isBlank c = false := by
  cases blank : isBlank c with
  | false => rfl
  | true =>
    simp only [isBlank, Bool.or_eq_true, beq_iff_eq] at blank
    rcases blank with ((rfl | rfl) | rfl) | rfl <;> cases h

theorem write_head {v : Json} (writable : v.Writable) :
    ∃ c text, v.write = c :: text ∧ isBlank c = false ∧ c ≠ ']' := by
  cases v with
  | null => exact ⟨_, _, rfl, rfl, by decide⟩
  | bool value => cases value <;> exact ⟨_, _, rfl, rfl, by decide⟩
  | number digits =>
    obtain ⟨c, tail, text, opens⟩ := number?_head writable
    exact ⟨c, tail, text, not_isBlank_of_opensNumber opens, ne_of_opensNumber opens rfl⟩
  | string content => exact ⟨_, _, rfl, rfl, by decide⟩
  | array items => exact ⟨_, _, rfl, rfl, by decide⟩
  | object members => exact ⟨_, _, rfl, rfl, by decide⟩

theorem ends_cons {c : Char} {text : List Char}
    (h : c.isDigit = false ∧ c ≠ '.' ∧ c ≠ 'e' ∧ c ≠ 'E') : Ends (c :: text) := by
  rintro _ ⟨⟩
  exact h

theorem value?_number {digits : String} {fuel : Nat} {after : List Char}
    (writable : (Json.number digits).Writable) (ends : Ends after) :
    value? (fuel + 1) (digits.toList ++ after) = some (.number digits, after) := by
  obtain ⟨c, tail, text, opens⟩ := number?_head writable
  have read := ends.number _ _ _ writable
  rw [text, List.cons_append, List.nil_append] at read
  rw [text, List.cons_append, value?, skipBlanks_cons (not_isBlank_of_opensNumber opens)]
  have digits_eq : String.ofList (c :: tail) = digits := by rw [← text, String.ofList_toList]
  -- every other value starts with a character that no number starts with
  split
  iterate 6 next same => exact absurd (List.cons.inj same).1 (ne_of_opensNumber opens rfl)
  next => simp [read, digits_eq]

theorem writeItems_head {item : Json} (rest : List Json) (writable : item.Writable) :
    ∃ c text, writeItems (item :: rest) = c :: text ∧ isBlank c = false ∧ c ≠ ']' := by
  obtain ⟨c, text, starts, solid, closes⟩ := write_head writable
  cases rest with
  | nil => exact ⟨c, _, by rw [writeItems, starts]; rfl, solid, closes⟩
  | cons next rest => exact ⟨c, _, by rw [writeItems, starts]; rfl, solid, closes⟩

theorem writeMembers_head (member : Option String × Json) (rest : List (Option String × Json)) :
    ∃ text, writeMembers (member :: rest) = '"' :: text := by
  cases rest <;> exact ⟨_, rfl⟩

/-- At least one character is written for a value, so that reading it takes some fuel. -/
theorem write_length_pos {v : Json} (writable : v.Writable) : 0 < v.write.length := by
  obtain ⟨c, text, starts, -⟩ := write_head writable
  simp [starts]

mutual

theorem value?_write {v : Json} (fuel : Nat) (after : List Char) (writable : v.Writable)
    (enough : 2 * v.write.length ≤ fuel) (ends : Ends after) :
    value? fuel (v.write ++ after) = some (v, after) := by
  cases fuel with
  | zero => exact absurd (write_length_pos writable) (by omega)
  | succ fuel =>
    cases v with
    | null => simp [write, value?, skipBlanks_cons, isBlank]
    | bool value => cases value <;> simp [write, value?, skipBlanks_cons, isBlank]
    | number digits => exact value?_number writable ends
    | string content => simp [write, value?, skipBlanks_cons, isBlank, literal?_writeLiteral]
    | array items =>
      cases items with
      | nil => simp [write, writeItems, value?, skipBlanks_cons, isBlank]
      | cons item rest =>
        rw [write, List.length_cons] at enough
        have reads := items?_writeItems fuel after writable (by omega)
        obtain ⟨c, text, starts, solid, closes⟩ := writeItems_head rest writable.1
        have atItem : skipBlanks (c :: (text ++ after)) = c :: (text ++ after) :=
          skipBlanks_cons solid
        rw [starts, List.cons_append] at reads
        simp [write, starts, value?, skipBlanks_cons, isBlank, atItem, closes, reads]
    | object members =>
      cases members with
      | nil => simp [write, writeMembers, value?, skipBlanks_cons, isBlank]
      | cons member rest =>
        rw [write, List.length_cons] at enough
        have reads := members?_writeMembers fuel after writable (by omega)
        obtain ⟨text, starts⟩ := writeMembers_head member rest
        rw [starts, List.cons_append] at reads
        simp [write, starts, value?, skipBlanks_cons, isBlank, reads]
termination_by fuel

theorem items?_writeItems {item : Json} {rest : List Json} (fuel : Nat) (after : List Char)
    (writable : WritableItems (item :: rest))
    (enough : 2 * (writeItems (item :: rest)).length ≤ fuel) :
    items? fuel (writeItems (item :: rest) ++ after) = some (item :: rest, after) := by
  cases rest with
  | nil =>
    simp only [writeItems, List.length_append, List.length_singleton] at enough
    cases fuel with
    | zero => omega
    | succ fuel =>
      have read := value?_write fuel (']' :: after) writable.1 (by omega)
        (ends_cons (by decide))
      simp [writeItems, items?, read, skipBlanks_cons, isBlank]
  | cons next rest =>
    simp only [writeItems, List.length_append, List.length_cons] at enough
    cases fuel with
    | zero => omega
    | succ fuel =>
      have read := value?_write fuel (',' :: (writeItems (next :: rest) ++ after)) writable.1
        (by omega) (ends_cons (by decide))
      have reads := items?_writeItems fuel after writable.2 (by omega)
      simp [writeItems, items?, read, skipBlanks_cons, isBlank, reads]
termination_by fuel

theorem members?_writeMembers {member : Option String × Json}
    {rest : List (Option String × Json)} (fuel : Nat) (after : List Char)
    (writable : WritableMembers (member :: rest))
    (enough : 2 * (writeMembers (member :: rest)).length ≤ fuel) :
    members? fuel (writeMembers (member :: rest) ++ after) = some (member :: rest, after) := by
  obtain ⟨key, value⟩ := member
  cases rest with
  | nil =>
    simp only [writeMembers, List.length_append, List.length_cons] at enough
    cases fuel with
    | zero => omega
    | succ fuel =>
      have read := value?_write fuel ('\x7d' :: after) writable.1 (by omega)
        (ends_cons (by decide))
      simp [writeMembers, members?, skipBlanks_cons, isBlank, literal?_writeLiteral, read]
  | cons next rest =>
    simp only [writeMembers, List.length_append, List.length_cons] at enough
    cases fuel with
    | zero => omega
    | succ fuel =>
      have read := value?_write fuel (',' :: (writeMembers (next :: rest) ++ after)) writable.1
        (by omega) (ends_cons (by decide))
      have reads := members?_writeMembers fuel after writable.2 (by omega)
      simp [writeMembers, members?, skipBlanks_cons, isBlank, literal?_writeLiteral, read, reads]
termination_by fuel

end

/-- What is written for a value is read as this value. -/
theorem ofText?_render {v : Json} (writable : v.Writable) : ofText? v.render = some v := by
  have length : v.render.length = v.write.length := by simp [render]
  have chars : v.render.toList = v.write ++ [] := by simp [render]
  have read := value?_write (2 * v.render.length + 1) [] writable (by omega)
    (by rintro _ ⟨⟩)
  rw [ofText?, chars, read]
  rfl

end ExprTyping.Json
