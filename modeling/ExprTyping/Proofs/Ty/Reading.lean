import ExprTyping.Ty.Render
import Mathlib.Data.List.TakeWhile

/-!
# Reading types back

Types with legible names have different texts (`Ty.render_injective`), as the text of such a type
can be read back (`Ty.reads`).

What follows the text of a type decides how far it is read. A name goes on with name characters and
opens its arguments with `<`, so neither may follow a name. The suffixes `?` and `.Type` apply to
what was read before them, from left to right, which gives an optional the text of the wrapped type
with a suffix that is still to be read. But a function type takes in the suffixes of its result:
after it, nothing may follow but the end or a delimiter, and this is what its parentheses are for.
-/

namespace ExprTyping.Ty

/-! ## Names -/

/-- Letters and the underscore. All characters beyond ASCII are taken for letters. -/
def isLetter (c : Char) : Bool := c.isAlpha || c == '_' || 128 ≤ c.toNat

/-- Letters, the underscore and digits. -/
def isNameChar (c : Char) : Bool := isLetter c || c.isDigit

/-- A letter or an underscore with letters, digits and underscores after it. -/
def isIdentifier (name : String) : Bool :=
  match name.toList with
  | [] => false
  | c :: rest => isLetter c && rest.all isNameChar

/-- The types that have a word of their own. -/
def words : List (String × Ty) :=
  [("Void", .void), ("Bool", .bool), ("Int", .int), ("Float", .float), ("String", .string),
   ("Any", .any), ("AnyObject", .anyObject)]

/-- The type that a word stands for. -/
def ofWord (word : String) : Ty := (words.lookup word).getD (.named word)

mutual

/-- Whether all names in the type are identifiers, and no named type has the word of another
type. -/
def isLegible : Ty → Bool
  | .named name => isIdentifier name && !(words.map (·.1)).contains name
  | .metatype subject => isLegible subject
  | .optional wrapped => isLegible wrapped
  | .generic name arguments => isIdentifier name && areLegible arguments
  | .function parameters result => areLegible parameters && isLegible result
  | _ => true

/-- Whether all the types are legible. -/
def areLegible : List Ty → Bool
  | [] => true
  | t :: rest => isLegible t && areLegible rest

end

/-! ## The reader -/

/-- Reads the suffixes after a type. -/
def suffixes (t : Ty) : List Char → Ty × List Char
  | '?' :: rest => suffixes (.optional t) rest
  | '.' :: 'T' :: 'y' :: 'p' :: 'e' :: rest => suffixes (.metatype t) rest
  | rest => (t, rest)

mutual

/-- A type, and what follows it. The first argument bounds the number of nested calls. -/
def type? : Nat → List Char → Option (Ty × List Char)
  | 0, _ => none
  | fuel + 1, text =>
    match text with
    -- no other text starts like that of the error type
    | '<' :: rest => some (suffixes .errorType (rest.drop 13))
    | '[' :: rest => do
      let (first, rest) ← type? fuel rest
      match rest with
      | ']' :: rest => return suffixes (.array first) rest
      | ':' :: ' ' :: rest =>
        let (value, rest) ← type? fuel rest
        return suffixes (.dictionary first value) (rest.drop 1)
      | _ => none
    | '(' :: rest => do
      let (items, rest) ← types? fuel ')' rest
      match items, rest with
      | _, ' ' :: '-' :: '>' :: ' ' :: rest =>
        let (result, rest) ← type? fuel rest
        return (.function items result, rest)
      | [inner], _ => return suffixes inner rest
      | _, _ => none
    | _ =>
      let word := String.ofList (text.takeWhile isNameChar)
      match text.dropWhile isNameChar with
      | '<' :: rest => do
        let (arguments, rest) ← types? fuel '>' rest
        return suffixes (.generic word arguments) rest
      | rest => some (suffixes (ofWord word) rest)

/-- Types with commas between them up to the closing character, and what follows it. -/
def types? : Nat → Char → List Char → Option (List Ty × List Char)
  | 0, _, _ => none
  | _, _, [] => none
  | fuel + 1, close, c :: text =>
    if c = close then some ([], text)
    else do
      let (first, rest) ← type? fuel (c :: text)
      match rest with
      | ',' :: ' ' :: rest =>
        let (more, rest) ← types? fuel close rest
        return (first :: more, rest)
      | _ => return ([first], rest.drop 1)

end

variable {t : Ty} {ts : List Ty} {name : String} {fuel : Nat} {after : List Char}

/-! ## Characters -/

/-- The characters of the text of a type. -/
def chars (t : Ty) : List Char := t.render.toList

/-- The characters of several texts with commas between them. -/
def charsAll (ts : List Ty) : List Char := (Text.commaSeparated (renderAll ts)).toList

/-- The characters in parentheses if `grouped` holds, else the bare characters. -/
def inParentheses (grouped : Bool) (text : List Char) : List Char :=
  if grouped then '(' :: text ++ [')'] else text

theorem toList_parenthesized (grouped : Bool) (text : String) :
    (parenthesized grouped text).toList = inParentheses grouped text.toList := by
  cases grouped <;> simp [parenthesized, inParentheses]

theorem chars_metatype (t : Ty) :
    (metatype t).chars = inParentheses (t.isFunction || t.isOptional) t.chars ++ ".Type".toList := by
  rw [chars, render, String.toList_append, toList_parenthesized]
  rfl

theorem chars_optional (t : Ty) :
    (optional t).chars = inParentheses t.isFunction t.chars ++ ['?'] := by
  rw [chars, render, String.toList_append, toList_parenthesized]
  rfl

theorem chars_function (ts : List Ty) (t : Ty) :
    (function ts t).chars = '(' :: (charsAll ts ++ ')' :: ' ' :: '-' :: '>' :: ' ' :: t.chars) := by
  simp [chars, charsAll, render]

theorem chars_array (t : Ty) : (array t).chars = '[' :: (t.chars ++ [']']) := by
  simp [chars, array, render, renderAll, renderGeneric]

theorem chars_dictionary (k v : Ty) :
    (dictionary k v).chars = '[' :: (k.chars ++ ':' :: ' ' :: (v.chars ++ [']'])) := by
  simp [chars, dictionary, render, renderAll, renderGeneric]

/-- Neither a list of one type nor one of two types gives an array or a dictionary. -/
theorem chars_generic (harray : ∀ t, generic name ts ≠ array t)
    (hdictionary : ∀ k v, generic name ts ≠ dictionary k v) :
    (generic name ts).chars = name.toList ++ '<' :: (charsAll ts ++ ['>']) := by
  rw [chars, render]
  match ts with
  | [] => simp [charsAll, renderAll, renderGeneric, Text.commaSeparated]
  | [t] =>
    have hname : name ≠ Collection.array.name := fun h => harray t (by rw [h, array])
    simp [charsAll, renderAll, renderGeneric, Text.commaSeparated, hname]
  | [k, v] =>
    have hname : name ≠ Collection.dictionary.name := fun h => hdictionary k v (by rw [h, dictionary])
    simp [charsAll, renderAll, renderGeneric, Text.commaSeparated, hname]
  | _ :: _ :: _ :: _ => simp [charsAll, renderAll, renderGeneric]

theorem charsAll_singleton (t : Ty) : charsAll [t] = t.chars := rfl

theorem charsAll_cons (t u : Ty) (ts : List Ty) :
    charsAll (t :: u :: ts) = t.chars ++ ',' :: ' ' :: charsAll (u :: ts) := by
  simp [charsAll, chars, renderAll, Text.commaSeparated]

/-! ## What may follow a type -/

/-- A name neither goes on with the text nor takes it for its arguments. -/
def EndsName (after : List Char) : Prop := ∀ c ∈ after.head?, isNameChar c = false ∧ c ≠ '<'

/-- The text is at its end or starts with a delimiter. -/
def Delimits (after : List Char) : Prop := ∀ c ∈ after.head?, c ∈ [',', ':', ')', ']', '>']

theorem endsName_cons {c : Char} (h : isNameChar c = false ∧ c ≠ '<') : EndsName (c :: after) := by
  rintro _ ⟨⟩
  exact h

theorem delimits_cons {c : Char} (h : c ∈ [',', ':', ')', ']', '>']) : Delimits (c :: after) := by
  rintro _ ⟨⟩
  exact h

theorem Delimits.endsName (h : Delimits after) : EndsName after := by
  have ends : [',', ':', ')', ']', '>'].all (fun c => !isNameChar c && c != '<') = true := by decide
  exact fun c hc => by simpa using List.all_eq_true.1 ends c (h c hc)

theorem Delimits.suffixes_eq (h : Delimits after) (t : Ty) : suffixes t after = (t, after) := by
  cases after with
  | nil => rfl
  | cons c rest =>
    have hc := h c rfl
    simp only [List.mem_cons, List.not_mem_nil, or_false] at hc
    rcases hc with rfl | rfl | rfl | rfl | rfl <;> rfl

/-! ## Reading names -/

theorem exists_letter (h : isIdentifier name = true) :
    ∃ c rest, name.toList = c :: rest ∧ isLetter c = true ∧ ∀ d ∈ c :: rest, isNameChar d = true := by
  unfold isIdentifier at h
  split at h
  · cases h
  · next c rest hname =>
    rw [Bool.and_eq_true, List.all_eq_true] at h
    refine ⟨c, rest, hname, h.1, fun d hd => ?_⟩
    rcases List.mem_cons.1 hd with rfl | hd
    · simp [isNameChar, h.1]
    · exact h.2 d hd

/-- What does not start like another text is read as a name. -/
theorem type?_letter {c : Char} {rest : List Char} (hc : isLetter c = true) :
    type? (fuel + 1) (c :: rest) =
      match (c :: rest).dropWhile isNameChar with
      | '<' :: after => do
        let (arguments, after) ← types? fuel '>' after
        return suffixes (.generic (String.ofList ((c :: rest).takeWhile isNameChar)) arguments) after
      | after => some (suffixes (ofWord (String.ofList ((c :: rest).takeWhile isNameChar))) after) := by
  have hne : ∀ d, isLetter d = false → ∀ tail, c :: rest = d :: tail → False := by
    rintro d hd tail ⟨⟩
    cases hc.symm.trans hd
  rw [type?]
  exacts [hne '<' rfl, hne '[' rfl, hne '(' rfl]

theorem split_name (h : isIdentifier name = true) (ends : ∀ c ∈ after.head?, isNameChar c = false) :
    (name.toList ++ after).takeWhile isNameChar = name.toList ∧
      (name.toList ++ after).dropWhile isNameChar = after := by
  obtain ⟨c, rest, hname, -, hall⟩ := exists_letter h
  rw [hname, List.takeWhile_append_of_pos hall, List.dropWhile_append_of_pos hall]
  cases after with
  | nil => simp
  | cons d after => simp [ends d rfl]

theorem type?_word (h : isIdentifier name = true) (ends : EndsName after) :
    type? (fuel + 1) (name.toList ++ after) = some (suffixes (ofWord name) after) := by
  obtain ⟨htake, hdrop⟩ := split_name h fun c hc => (ends c hc).1
  obtain ⟨c, rest, hname, hc, -⟩ := exists_letter h
  rw [hname, List.cons_append] at htake hdrop ⊢
  rw [type?_letter hc, htake, hdrop, ← hname, String.ofList_toList]
  split
  · next tail => exact absurd rfl (ends '<' rfl).2
  · rfl

theorem type?_arguments (h : isIdentifier name = true) (text : List Char) :
    type? (fuel + 1) (name.toList ++ '<' :: text) =
      (types? fuel '>' text).map fun (arguments, after) =>
        suffixes (.generic name arguments) after := by
  have ends : ∀ c ∈ ('<' :: text).head?, isNameChar c = false := by
    rintro _ ⟨⟩
    rfl
  obtain ⟨htake, hdrop⟩ := split_name h ends
  obtain ⟨c, rest, hname, hc, -⟩ := exists_letter h
  rw [hname, List.cons_append] at htake hdrop ⊢
  rw [type?_letter hc, htake, hdrop, ← hname, String.ofList_toList]
  split
  · next tail same =>
    obtain rfl := (List.cons.inj same).2
    cases types? fuel '>' text <;> rfl
  · next other => exact absurd rfl (other text)

/-! ## How texts start -/

/-- A generic type is an array, a dictionary or written with its name. -/
theorem generic_cases (name : String) (ts : List Ty) :
    (∃ t, generic name ts = array t) ∨ (∃ k v, generic name ts = dictionary k v) ∨
      (generic name ts).chars = name.toList ++ '<' :: (charsAll ts ++ ['>']) := by
  by_cases harray : ∃ t, generic name ts = array t
  · exact .inl harray
  · by_cases hdictionary : ∃ k v, generic name ts = dictionary k v
    · exact .inr (.inl hdictionary)
    · refine .inr (.inr (chars_generic ?_ ?_))
      · exact fun t ht => harray ⟨t, ht⟩
      · exact fun k v hkv => hdictionary ⟨k, v, hkv⟩

/-- Whether the text of some type starts with the character. -/
def opens (c : Char) : Bool := isLetter c || c == '(' || c == '[' || c == '<'

theorem opens_name (h : isIdentifier name = true) (rest : List Char) :
    ∃ c text, name.toList ++ rest = c :: text ∧ opens c = true := by
  obtain ⟨c, tail, hname, hc, -⟩ := exists_letter h
  exact ⟨c, tail ++ rest, by rw [hname, List.cons_append], by simp [opens, hc]⟩

theorem opens_inParentheses {text : List Char} (h : ∃ c rest, text = c :: rest ∧ opens c = true)
    (grouped : Bool) (suffix : List Char) :
    ∃ c rest, inParentheses grouped text ++ suffix = c :: rest ∧ opens c = true := by
  obtain ⟨c, rest, rfl, hc⟩ := h
  cases grouped with
  | false => exact ⟨c, rest ++ suffix, rfl, hc⟩
  | true => exact ⟨'(', _, rfl, rfl⟩

theorem exists_chars (t : Ty) (h : t.isLegible = true) :
    ∃ c rest, t.chars = c :: rest ∧ opens c = true := by
  cases t with
  | void | bool | int | float | string | any | anyObject | errorType => exact ⟨_, _, rfl, rfl⟩
  | named name =>
    rw [isLegible, Bool.and_eq_true] at h
    have hopens := opens_name h.1 []
    rwa [List.append_nil] at hopens
  | metatype t =>
    rw [chars_metatype]
    exact opens_inParentheses (exists_chars t h) _ _
  | optional t =>
    rw [chars_optional]
    exact opens_inParentheses (exists_chars t h) _ _
  | generic name ts =>
    rw [isLegible, Bool.and_eq_true] at h
    rcases generic_cases name ts with ⟨t, ht⟩ | ⟨k, v, hkv⟩ | hchars
    · exact ⟨'[', _, by rw [ht, chars_array], rfl⟩
    · exact ⟨'[', _, by rw [hkv, chars_dictionary], rfl⟩
    · rw [hchars]
      exact opens_name h.1 _
  | function ts t => exact ⟨'(', _, chars_function ts t, rfl⟩

/-! ## Reading types -/

/-- What is read where the text of the type stands before this text. -/
def readOn (t : Ty) (after : List Char) : Ty × List Char :=
  if t.isFunction then (t, after) else suffixes t after

theorem Delimits.readOn_eq (h : Delimits after) (t : Ty) : t.readOn after = (t, after) := by
  rw [readOn, h.suffixes_eq, ite_self]

/-- The text of the type is read as the type, with enough fuel, before any text that may follow. -/
def Reads (t : Ty) : Prop :=
  ∀ fuel after, 2 * sizeOf t ≤ fuel → EndsName after → (t.isFunction = true → Delimits after) →
    type? fuel (t.chars ++ after) = some (t.readOn after)

theorem Reads.delimited (h : t.Reads) (enough : 2 * sizeOf t ≤ fuel) (delimits : Delimits after) :
    type? fuel (t.chars ++ after) = some (t, after) := by
  rw [h fuel after enough delimits.endsName fun _ => delimits, delimits.readOn_eq]

theorem sizeOf_pos (t : Ty) : 0 < sizeOf t := by
  apply Nat.pos_of_ne_zero
  cases t <;> simp

theorem reads_word (h : isIdentifier name = true) (hchars : t.chars = name.toList)
    (ht : ofWord name = t) (hfunction : t.isFunction = false) : t.Reads := by
  intro fuel after enough ends _
  obtain ⟨fuel, rfl⟩ : ∃ k, fuel = k + 1 := ⟨fuel - 1, by have := t.sizeOf_pos; omega⟩
  rw [hchars, type?_word h ends, ht, readOn, hfunction]
  rfl

theorem ofWord_named (h : (words.map (·.1)).contains name = false) :
    ofWord name = named name := by
  have unknown : words.lookup name = none := by
    rw [List.lookup_eq_none_iff]
    intro p hp
    rw [bne_iff_ne]
    rintro rfl
    rw [List.contains_eq_mem, decide_eq_false_iff_not] at h
    exact h (List.mem_map_of_mem hp)
  rw [ofWord, unknown]
  rfl

theorem reads_errorType : errorType.Reads := by
  intro fuel after enough _ _
  obtain ⟨fuel, rfl⟩ : ∃ k, fuel = k + 1 := ⟨fuel - 1, by simp at enough; omega⟩
  show type? (fuel + 1) ('<' :: ("<error type>>".toList ++ after)) = _
  rw [type?]
  rfl

theorem Reads.array (h : t.Reads) : (array t).Reads := by
  intro fuel after enough _ _
  simp only [Ty.array, generic.sizeOf_spec, List.cons.sizeOf_spec] at enough
  obtain ⟨fuel, rfl⟩ : ∃ k, fuel = k + 1 := ⟨fuel - 1, by omega⟩
  have read : type? fuel (t.chars ++ ']' :: after) = some (t, ']' :: after) :=
    h.delimited (by omega) (delimits_cons (by decide))
  rw [chars_array, List.cons_append, List.append_assoc, List.singleton_append, type?, read]
  rfl

theorem Reads.dictionary {k v : Ty} (hk : k.Reads) (hv : v.Reads) : (dictionary k v).Reads := by
  intro fuel after enough _ _
  simp only [Ty.dictionary, generic.sizeOf_spec, List.cons.sizeOf_spec] at enough
  obtain ⟨fuel, rfl⟩ : ∃ k, fuel = k + 1 := ⟨fuel - 1, by omega⟩
  have readValue : type? fuel (v.chars ++ ']' :: after) = some (v, ']' :: after) :=
    hv.delimited (by omega) (delimits_cons (by decide))
  have readKey : type? fuel (k.chars ++ ':' :: ' ' :: (v.chars ++ ']' :: after)) =
      some (k, ':' :: ' ' :: (v.chars ++ ']' :: after)) :=
    hk.delimited (by omega) (delimits_cons (by decide))
  simp only [chars_dictionary, List.cons_append, List.append_assoc, List.nil_append]
  rw [type?, readKey]
  simp [readValue, readOn, isFunction, Ty.dictionary]

/-- A type in parentheses is read as the type, and then the suffixes after them. -/
theorem type?_group (h : t.isLegible = true)
    (read : type? fuel (t.chars ++ ')' :: after) = some (t, ')' :: after))
    (notArrow : after.head? ≠ some ' ') :
    type? (fuel + 2) ('(' :: (t.chars ++ ')' :: after)) = some (suffixes t after) := by
  obtain ⟨c, rest, hchars, hopens⟩ := exists_chars t h
  have hclose : c ≠ ')' := fun h => by cases h ▸ hopens
  have readAll : types? (fuel + 1) ')' (t.chars ++ ')' :: after) = some ([t], after) := by
    rw [hchars, List.cons_append] at read ⊢
    rw [types?, if_neg hclose, read]
    rfl
  rw [type?, readAll]
  cases after with
  | nil => rfl
  | cons d rest =>
    have hd : d ≠ ' ' := fun h => notArrow (h ▸ rfl)
    simp [hd]

/-- Before a suffix, a type is read with or without parentheses, if functions have some. -/
theorem Reads.inParentheses (h : t.Reads) (legible : t.isLegible = true) {grouped : Bool}
    (hfunction : t.isFunction = true → grouped = true) (enough : 2 * sizeOf t + 2 ≤ fuel)
    (ends : EndsName after) (notArrow : after.head? ≠ some ' ') :
    type? fuel (Ty.inParentheses grouped t.chars ++ after) = some (suffixes t after) := by
  obtain ⟨fuel, rfl⟩ : ∃ k, fuel = k + 2 := ⟨fuel - 2, by omega⟩
  cases grouped with
  | true =>
    have read : type? fuel (t.chars ++ ')' :: after) = some (t, ')' :: after) :=
      h.delimited (by omega) (delimits_cons (by decide))
    rw [← type?_group legible read notArrow]
    simp [Ty.inParentheses]
  | false =>
    have plain : ¬ t.isFunction = true := fun hf => Bool.false_ne_true (hfunction hf)
    show type? (fuel + 2) (t.chars ++ after) = _
    rw [h _ after (by omega) ends fun hf => absurd hf plain, readOn, if_neg plain]

theorem Reads.metatype (h : t.Reads) (legible : t.isLegible = true) : (metatype t).Reads := by
  intro fuel after enough _ _
  rw [metatype.sizeOf_spec] at enough
  rw [chars_metatype, List.append_assoc]
  exact h.inParentheses legible (by simp +contextual) (by omega) (endsName_cons (by decide))
    (by simp)

theorem Reads.optional (h : t.Reads) (legible : t.isLegible = true) : (optional t).Reads := by
  intro fuel after enough _ _
  rw [optional.sizeOf_spec] at enough
  rw [chars_optional, List.append_assoc]
  exact h.inParentheses legible id (by omega) (endsName_cons (by decide)) (by simp)

/-- Lists are read up to their closing bracket. -/
theorem types?_charsAll {close : Char} (hclose : close = ')' ∨ close = '>')
    (h : ∀ t ∈ ts, t.isLegible = true ∧ t.Reads) (enough : 2 * sizeOf ts ≤ fuel) :
    types? fuel close (charsAll ts ++ close :: after) = some (ts, after) := by
  induction ts generalizing fuel with
  | nil =>
    simp only [List.nil.sizeOf_spec] at enough
    obtain ⟨fuel, rfl⟩ : ∃ k, fuel = k + 1 := ⟨fuel - 1, by omega⟩
    show types? (fuel + 1) close (close :: after) = _
    rw [types?, if_pos rfl]
  | cons t rest ih =>
    rw [List.cons.sizeOf_spec] at enough
    obtain ⟨fuel, rfl⟩ : ∃ k, fuel = k + 1 := ⟨fuel - 1, by omega⟩
    obtain ⟨legible, reads⟩ := h t List.mem_cons_self
    obtain ⟨c, text, hchars, hopens⟩ := exists_chars t legible
    have hne : c ≠ close := by
      rintro rfl
      rcases hclose with rfl | rfl <;> cases hopens
    have hdelimits : Delimits (close :: after) :=
      delimits_cons (by rcases hclose with rfl | rfl <;> decide)
    cases rest with
    | nil =>
      have read : type? fuel (t.chars ++ close :: after) = some (t, close :: after) :=
        reads.delimited (by omega) hdelimits
      rw [charsAll_singleton]
      rw [hchars, List.cons_append] at read ⊢
      rw [types?, if_neg hne, read]
      rcases hclose with rfl | rfl <;> rfl
    | cons u rest =>
      have readRest : types? fuel close (charsAll (u :: rest) ++ close :: after) =
          some (u :: rest, after) := ih (fun x hx => h x (List.mem_cons_of_mem t hx)) (by omega)
      have read : type? fuel (t.chars ++ ',' :: ' ' :: (charsAll (u :: rest) ++ close :: after)) =
          some (t, ',' :: ' ' :: (charsAll (u :: rest) ++ close :: after)) :=
        reads.delimited (by omega) (delimits_cons (by decide))
      rw [charsAll_cons, List.append_assoc, List.cons_append, List.cons_append]
      rw [hchars, List.cons_append] at read ⊢
      rw [types?, if_neg hne, read]
      simp [readRest]

theorem reads_generic (hname : isIdentifier name = true)
    (h : ∀ t ∈ ts, t.isLegible = true ∧ t.Reads) : (generic name ts).Reads := by
  rcases generic_cases name ts with ⟨t, ht⟩ | ⟨k, v, hkv⟩ | hchars
  · obtain ⟨rfl, rfl⟩ := generic.inj ht
    exact (h t (by simp)).2.array
  · obtain ⟨rfl, rfl⟩ := generic.inj hkv
    exact (h k (by simp)).2.dictionary (h v (by simp)).2
  · intro fuel after enough _ _
    rw [generic.sizeOf_spec] at enough
    obtain ⟨fuel, rfl⟩ : ∃ k, fuel = k + 1 := ⟨fuel - 1, by omega⟩
    have readAll : types? fuel '>' (charsAll ts ++ '>' :: after) = some (ts, after) :=
      types?_charsAll (.inr rfl) h (by omega)
    simp only [hchars, List.append_assoc, List.cons_append, List.nil_append]
    rw [type?_arguments hname, readAll]
    rfl

theorem reads_function (h : ∀ t ∈ ts, t.isLegible = true ∧ t.Reads) (ht : t.Reads) :
    (function ts t).Reads := by
  intro fuel after enough _ delimits
  rw [function.sizeOf_spec] at enough
  obtain ⟨fuel, rfl⟩ : ∃ k, fuel = k + 1 := ⟨fuel - 1, by omega⟩
  have read : type? fuel (t.chars ++ after) = some (t, after) :=
    ht.delimited (by omega) (delimits rfl)
  have readAll : types? fuel ')' (charsAll ts ++ ')' :: ' ' :: '-' :: '>' :: ' ' ::
      (t.chars ++ after)) = some (ts, ' ' :: '-' :: '>' :: ' ' :: (t.chars ++ after)) :=
    types?_charsAll (.inl rfl) h (by omega)
  simp only [chars_function, List.cons_append, List.append_assoc]
  rw [type?, readAll]
  simp [read, readOn, isFunction]

mutual

/-- The text of a legible type is read as the type. -/
theorem reads (t : Ty) (h : t.isLegible = true) : t.Reads := by
  cases t with
  | void | bool | int | float | string | any | anyObject => exact reads_word rfl rfl rfl rfl
  | errorType => exact reads_errorType
  | named name =>
    rw [isLegible, Bool.and_eq_true] at h
    exact reads_word h.1 rfl (ofWord_named (by simpa using h.2)) rfl
  | metatype t => exact (reads t h).metatype h
  | optional t => exact (reads t h).optional h
  | generic name ts =>
    rw [isLegible, Bool.and_eq_true] at h
    exact reads_generic h.1 (readsAll ts h.2)
  | function ts t =>
    rw [isLegible, Bool.and_eq_true] at h
    exact reads_function (readsAll ts h.1) (reads t h.2)

theorem readsAll (ts : List Ty) (h : areLegible ts = true) :
    ∀ t ∈ ts, t.isLegible = true ∧ t.Reads := by
  cases ts with
  | nil => exact fun _ ht => absurd ht List.not_mem_nil
  | cons t rest =>
    rw [areLegible, Bool.and_eq_true] at h
    exact List.forall_mem_cons.2 ⟨⟨h.1, reads t h.1⟩, readsAll rest h.2⟩

end

/-- Legible types with the same text are the same. -/
theorem render_injective {s t : Ty} (hs : s.isLegible = true) (ht : t.isLegible = true)
    (h : s.render = t.render) : s = t := by
  have same : s.chars = t.chars := by rw [chars, chars, h]
  have ends : Delimits [] := by rintro _ ⟨⟩
  have read : type? (2 * sizeOf s + 2 * sizeOf t) (s.chars ++ []) = some (s, []) :=
    (reads s hs).delimited (by omega) ends
  have read' : type? (2 * sizeOf s + 2 * sizeOf t) (t.chars ++ []) = some (t, []) :=
    (reads t ht).delimited (by omega) ends
  rw [same] at read
  exact (Prod.mk.inj (Option.some.inj (read.symm.trans read'))).1

/-- The text `([String: <<error type>>], Set<>) -> Error?` has one reading, and the parentheses of
`(() -> Void)?` tell it from `() -> Void?`. -/
theorem render_injective_function :
    let written : Ty :=
      .function [.generic "Dictionary" [.string, .errorType], .generic "Set" []]
        (.optional (.named "Error"))
    let made : Ty :=
      .function [.dictionary .string .errorType, .generic Collection.set.name []]
        (.optional (.named "Error"))
    written.isLegible = true ∧ made.isLegible = true ∧ written.render = made.render ∧
      written = made ∧
      (Ty.optional (.function [] .void)).render ≠ (Ty.function [] (.optional .void)).render := by
  intro written made
  have text : written.render = "([String: <<error type>>], Set<>) -> Error?" := by decide +kernel
  have text' : made.render = "([String: <<error type>>], Set<>) -> Error?" := by decide +kernel
  have legible : written.isLegible = true := by decide +kernel
  have legible' : made.isLegible = true := by decide +kernel
  have same : written = made := render_injective legible legible' (text.trans text'.symm)
  refine ⟨legible, legible', text.trans text'.symm, same, fun h => ?_⟩
  have legible_optional : (Ty.optional (.function [] .void)).isLegible = true := rfl
  have legible_function : (Ty.function [] (.optional .void)).isLegible = true := rfl
  cases render_injective legible_optional legible_function h

/-- A named type with the word of another type has the text of that type. -/
example : (Ty.named "Int").render = Ty.int.render := rfl

end ExprTyping.Ty
