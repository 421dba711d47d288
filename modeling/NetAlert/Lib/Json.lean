import Mathlib.Tactic
import NetAlert.Lib.FieldText

/-!
# NetAlert.Lib.Json — compact JSON texts

A value is written without blanks, with the short escapes and `\u` for other control characters (`write`), and
`read` is a recursive descent over such texts.  How numbers are written is a parameter.

* `readChars_quote`: a quoted string reads back, whatever characters it has.
* `readSeq_writeSeq`: entries between commas read back, if each of them does; for arrays and objects alike.
* `read_write`: every value reads back.
-/

inductive Json (ν : Type) where
  | null
  | bool (b : Bool)
  | num (n : ν)
  | str (s : String)
  | arr (items : List (Json ν))
  | obj (fields : List (String × Json ν))

/-- Texts of numbers: words without the characters that begin another value or follow one. -/
structure JsonNumbers (ν : Type) where
  text : ν → List Char
  parse : List Char → Option ν
  isChar : Char → Bool
  text_ne_nil : ∀ n, text n ≠ []
  isChar_text : ∀ n, ∀ c ∈ text n, isChar c = true
  isChar_other : ∀ c ∈ [',', ']', '}', '"', '[', '{', 'n', 't', 'f'], isChar c = false
  parse_text : ∀ n, parse (text n) = some n

namespace Json

/-! ## Parts of a value -/

section Parts

variable {ν : Type}

/-- An object without the fields that have no value. -/
def ofOptions (fields : List (String × Option (Json ν))) : Json ν :=
  obj (fields.filterMap fun f => f.2.map fun j => (f.1, j))

/-- An array, if it has an item. -/
def ofNonempty (items : List (Json ν)) : Option (Json ν) := if items.isEmpty then none else some (arr items)

def field (key : String) : Json ν → Option (Json ν)
  | obj fields => fields.lookup key
  | _ => none

def asString : Json ν → Option String
  | str s => some s
  | _ => none

def asList : Json ν → Option (List (Json ν))
  | arr items => some items
  | _ => none

def asPairs : Json ν → Option (List (String × Json ν))
  | obj fields => some fields
  | _ => none

/-- The items of a field, none if there is no field. -/
def listOf {α : Type} (read : Json ν → Option α) (key : String) (j : Json ν) : Option (List α) :=
  match j.field key with
  | some items => do
    let items ← items.asList
    items.mapM read
  | none => some []

theorem lookup_filterMap {fields : List (String × Option (Json ν))} (h : (fields.map Prod.fst).Nodup)
    (key : String) :
    (fields.filterMap fun f => f.2.map fun j => (f.1, j)).lookup key = (fields.lookup key).join := by
  induction fields with
  | nil => rfl
  | cons f fields ih =>
    obtain ⟨k, o⟩ := f
    rw [List.map_cons, List.nodup_cons] at h
    have hrest := ih h.2
    cases o with
    | some j =>
      simp only [List.filterMap_cons, Option.map_some, List.lookup_cons]
      cases hk : key == k with
      | true => rfl
      | false => exact hrest
    | none =>
      simp only [List.filterMap_cons, Option.map_none, List.lookup_cons, hrest]
      cases hk : key == k with
      | true =>
        obtain rfl := eq_of_beq hk
        have hnone : fields.lookup key = none := by
          refine List.lookup_eq_none_iff.mpr fun p hp => ?_
          have hmem : p.1 ∈ fields.map Prod.fst := List.mem_map_of_mem hp
          simpa using fun heq : key = p.1 => h.1 (heq ▸ hmem)
        simp [hnone]
      | false => rfl

/-- **The field of an object**, if it has a value. -/
theorem field_ofOptions {fields : List (String × Option (Json ν))} (h : (fields.map Prod.fst).Nodup)
    (key : String) : (ofOptions fields).field key = (fields.lookup key).join := lookup_filterMap h key

theorem mapM_map {α β : Type} {write : α → β} {read : β → Option α} (h : ∀ x, read (write x) = some x)
    (l : List α) : (l.map write).mapM read = some l := by
  induction l with
  | nil => rfl
  | cons x l ih => simp [h, ih]

/-- **A list** that is left out if it is empty reads back, if its items do. -/
theorem listOf_ofNonempty {α : Type} {write : α → Json ν} {read : Json ν → Option α} {j : Json ν} {key : String}
    {l : List α} (h : ∀ x, read (write x) = some x) (hfield : j.field key = ofNonempty (l.map write)) :
    j.listOf read key = some l := by
  rw [listOf, hfield]
  cases l with
  | nil => rfl
  | cons x l => exact mapM_map h (x :: l)

end Parts

/-! ## Writing -/

/-- The characters that have an escape of their own. -/
def shortEscapes : List (Char × Char) :=
  [('"', '"'), ('\\', '\\'), ('\n', 'n'), ('\r', 'r'), ('\t', 't'), (Char.ofNat 8, 'b'), (Char.ofNat 12, 'f')]

def escape (c : Char) : List Char :=
  match shortEscapes.lookup c with
  | some e => ['\\', e]
  | none =>
    if c.toNat < 32 then ['\\', 'u', '0', '0', Nat.digitChar (c.toNat / 16), Nat.digitChar (c.toNat % 16)] else [c]

def quote (s : String) : List Char := '"' :: (s.toList.flatMap escape ++ ['"'])

/-- Entries with commas between them, and the closing character. -/
def writeSeq (close : Char) : List (List Char) → List Char
  | [] => [close]
  | [t] => t ++ [close]
  | t :: u :: ts => t ++ ',' :: writeSeq close (u :: ts)

section Write

variable {ν : Type} (N : JsonNumbers ν)

mutual

def write : Json ν → List Char
  | null => ['n', 'u', 'l', 'l']
  | bool true => ['t', 'r', 'u', 'e']
  | bool false => ['f', 'a', 'l', 's', 'e']
  | num n => N.text n
  | str s => quote s
  | arr items => '[' :: writeSeq ']' (writeAll items)
  | obj fields => '{' :: writeSeq '}' (writeFields fields)

def writeAll : List (Json ν) → List (List Char)
  | [] => []
  | j :: items => write j :: writeAll items

def writeFields : List (String × Json ν) → List (List Char)
  | [] => []
  | (key, j) :: fields => (quote key ++ ':' :: write j) :: writeFields fields

end

end Write

/-! ## Reading -/

def unescape (e : Char) : Option Char := (shortEscapes.find? fun p => p.2 = e).map Prod.fst

/-- The character of four hexadecimal digits, which are not half of a surrogate pair. -/
def hexChar (ds : List Char) : Option Char :=
  let n := FieldText.value 16 ds
  if ds.all FieldText.isDigit ∧ n.isValidChar then some (Char.ofNat n) else none

/-- The characters up to the closing quote. -/
def readChars : List Char → Option (List Char × List Char)
  | [] => none
  | '"' :: cs => some ([], cs)
  | '\\' :: 'u' :: d₁ :: d₂ :: d₃ :: d₄ :: cs => do
    let c ← hexChar [d₁, d₂, d₃, d₄]
    let (s, cs) ← readChars cs
    return (c :: s, cs)
  | '\\' :: e :: cs => do
    let c ← unescape e
    let (s, cs) ← readChars cs
    return (c :: s, cs)
  | c :: cs =>
    if c.toNat < 32 then none else do
      let (s, cs) ← readChars cs
      return (c :: s, cs)

/-- Entries with commas between them, up to the closing character. -/
def readSeq {α : Type} (close : Char) (readOne : List Char → Option (α × List Char)) :
    ℕ → List Char → Option (List α × List Char)
  | 0, _ => none
  | n + 1, cs => do
    let (x, cs) ← readOne cs
    match cs with
    | c :: cs =>
      if c = close then return ([x], cs)
      else if c = ',' then do
        let (xs, cs) ← readSeq close readOne n cs
        return (x :: xs, cs)
      else none
    | [] => none

/-- None, or some of them. -/
def readAll {α : Type} (close : Char) (readOne : List Char → Option (α × List Char)) (cs : List Char) :
    Option (List α × List Char) :=
  if cs.head? = some close then some ([], cs.tail) else readSeq close readOne cs.length cs

section Read

variable {ν : Type} (N : JsonNumbers ν)

/-- A key, a colon and a value. -/
def readField (readOne : List Char → Option (Json ν × List Char)) :
    List Char → Option ((String × Json ν) × List Char)
  | '"' :: cs => do
    let (key, cs) ← readChars cs
    match cs with
    | ':' :: cs => do
      let (j, cs) ← readOne cs
      return ((String.ofList key, j), cs)
    | _ => none
  | _ => none

def readNumber (cs : List Char) : Option (Json ν × List Char) := do
  let n ← N.parse (cs.takeWhile N.isChar)
  return (num n, cs.dropWhile N.isChar)

/-- A value whose arrays and objects are less than `n` deep. -/
def readValue : ℕ → List Char → Option (Json ν × List Char)
  | 0, _ => none
  | n + 1, cs =>
    match cs with
    | 'n' :: 'u' :: 'l' :: 'l' :: cs => some (null, cs)
    | 't' :: 'r' :: 'u' :: 'e' :: cs => some (bool true, cs)
    | 'f' :: 'a' :: 'l' :: 's' :: 'e' :: cs => some (bool false, cs)
    | '"' :: cs => (readChars cs).map fun (s, cs) => (str (String.ofList s), cs)
    | '[' :: cs => (readAll ']' (readValue n) cs).map fun (items, cs) => (arr items, cs)
    | '{' :: cs => (readAll '}' (readField (readValue n)) cs).map fun (fields, cs) => (obj fields, cs)
    | cs => readNumber N cs

/-- A text that is one value. -/
def read (cs : List Char) : Option (Json ν) :=
  match readValue N cs.length cs with
  | some (j, []) => some j
  | _ => none

end Read

/-! ## Strings -/

section Strings

attribute [local simp] readChars

theorem unescape_of_mem : ∀ p ∈ shortEscapes, unescape p.2 = some p.1 ∧ p.2 ≠ 'u' := by decide

theorem hexChar_escape {c : Char} (h : c.toNat < 32) :
    hexChar ['0', '0', Nat.digitChar (c.toNat / 16), Nat.digitChar (c.toNat % 16)] = some c := by
  have hvalue : FieldText.value 16 ['0', '0', Nat.digitChar (c.toNat / 16), Nat.digitChar (c.toNat % 16)] =
      c.toNat := by
    simp only [FieldText.value, List.foldl_cons, List.foldl_nil,
      FieldText.digitValue_digitChar (c.toNat / 16) (by omega),
      FieldText.digitValue_digitChar (c.toNat % 16) (by omega), show FieldText.digitValue '0' = 0 by decide]
    omega
  have hdigits : ['0', '0', Nat.digitChar (c.toNat / 16), Nat.digitChar (c.toNat % 16)].all FieldText.isDigit =
      true := by
    simp [FieldText.isDigit_digitChar (c.toNat / 16) (by omega),
      FieldText.isDigit_digitChar (c.toNat % 16) (by omega), show FieldText.isDigit '0' = true by decide]
  have hvalid : c.toNat.isValidChar := .inl (by omega)
  simp only [hexChar, hvalue, hdigits, hvalid, and_self, if_true, Char.ofNat_toNat]

theorem escape_short {c e : Char} (h : shortEscapes.lookup c = some e) :
    escape c = ['\\', e] ∧ unescape e = some c ∧ e ≠ 'u' := by
  refine ⟨by rw [escape, h], unescape_of_mem (c, e) ?_⟩
  obtain ⟨l₁, l₂, hl, -⟩ := List.lookup_eq_some_iff.mp h
  rw [hl]
  simp

theorem ne_of_lookup_none {c : Char} (h : shortEscapes.lookup c = none) : c ≠ '"' ∧ c ≠ '\\' := by
  constructor
  · rintro rfl
    cases h
  · rintro rfl
    cases h

theorem readChars_short {c e : Char} (h : unescape e = some c) (hu : e ≠ 'u') (cs : List Char) :
    readChars ('\\' :: e :: cs) = (readChars cs).map fun p => (c :: p.1, p.2) := by
  cases hcs : readChars cs <;> simp [h, hu, hcs]

theorem readChars_control {c : Char} (h : c.toNat < 32) (cs : List Char) :
    readChars ('\\' :: 'u' :: '0' :: '0' :: Nat.digitChar (c.toNat / 16) :: Nat.digitChar (c.toNat % 16) :: cs) =
      (readChars cs).map fun p => (c :: p.1, p.2) := by
  cases hcs : readChars cs <;> simp [hexChar_escape h, hcs]

theorem readChars_plain {c : Char} (hquote : c ≠ '"') (hback : c ≠ '\\') (hcontrol : ¬ c.toNat < 32)
    (cs : List Char) : readChars (c :: cs) = (readChars cs).map fun p => (c :: p.1, p.2) := by
  rw [readChars]
  · rw [if_neg hcontrol]
    cases readChars cs <;> rfl
  · exact hquote
  · exact fun _ _ _ _ _ hc _ => hback hc
  · exact fun _ _ hc _ => hback hc

/-- **One character** reads back. -/
theorem readChars_escape (c : Char) (cs : List Char) :
    readChars (escape c ++ cs) = (readChars cs).map fun p => (c :: p.1, p.2) := by
  cases hshort : shortEscapes.lookup c with
  | some e =>
    obtain ⟨hescape, hback, hu⟩ := escape_short hshort
    rw [hescape]
    exact readChars_short hback hu cs
  | none =>
    obtain ⟨hquote, hback⟩ := ne_of_lookup_none hshort
    rw [escape, hshort]
    dsimp only
    split_ifs with hcontrol
    · exact readChars_control hcontrol cs
    · exact readChars_plain hquote hback hcontrol cs

/-- **A quoted string** reads back. -/
theorem readChars_quote (s : String) (cs : List Char) :
    readChars (s.toList.flatMap escape ++ '"' :: cs) = some (s.toList, cs) := by
  induction s.toList with
  | nil => rfl
  | cons c l ih =>
    rw [List.flatMap_cons, List.append_assoc, readChars_escape, ih]
    rfl

end Strings

/-! ## Entries -/

section Entries

variable {α : Type} {close : Char} {readOne : List Char → Option (α × List Char)}

attribute [local simp] writeSeq

theorem length_lt_writeSeq (close : Char) {t : List Char} {texts : List (List Char)} (h : t ∈ texts) :
    t.length < (writeSeq close texts).length := by
  induction texts using writeSeq.induct with
  | case1 => cases h
  | case2 u =>
    obtain rfl := List.mem_singleton.mp h
    simp
  | case3 u v ts ih =>
    rw [writeSeq, List.length_append, List.length_cons]
    rcases List.mem_cons.mp h with rfl | h
    · omega
    · have := ih h
      omega

theorem length_le_writeSeq (close : Char) (texts : List (List Char)) :
    texts.length ≤ (writeSeq close texts).length := by
  induction texts using writeSeq.induct with
  | case1 => exact Nat.zero_le _
  | case2 t => simp
  | case3 t u ts ih =>
    simp only [writeSeq, List.length_append, List.length_cons] at ih ⊢
    omega

/-- The text reads as the entry, before a comma and at the end. -/
def ReadsAs (close : Char) (readOne : List Char → Option (α × List Char)) (t : List Char) (x : α) : Prop :=
  ∀ c cs, c = ',' ∨ c = close → readOne (t ++ c :: cs) = some (x, c :: cs)

/-- **Entries** read back, if each of them does. -/
theorem readSeq_writeSeq (hclose : close ≠ ',') {texts : List (List Char)} {xs : List α}
    (h : List.Forall₂ (ReadsAs close readOne) texts xs) (hne : texts ≠ []) {n : ℕ} (hn : texts.length ≤ n)
    (rest : List Char) : readSeq close readOne n (writeSeq close texts ++ rest) = some (xs, rest) := by
  induction h generalizing n with
  | nil => exact absurd rfl hne
  | @cons t x texts xs hx hxs ih =>
    obtain ⟨m, rfl⟩ := Nat.exists_eq_add_of_lt (Nat.lt_of_lt_of_le (Nat.succ_pos texts.length) hn)
    rw [Nat.zero_add, List.length_cons] at hn
    cases hxs with
    | nil =>
      rw [writeSeq, List.append_assoc, List.singleton_append, Nat.zero_add, readSeq, hx close rest (.inr rfl)]
      simp
    | @cons u y texts xs hy hys =>
      have hrest := ih (List.cons_ne_nil u texts) (n := m) (by omega)
      rw [writeSeq, List.append_assoc, List.cons_append, Nat.zero_add, readSeq, hx ',' _ (.inl rfl)]
      simp [hclose.symm, hrest]

theorem readAll_writeSeq (hclose : close ≠ ',') {texts : List (List Char)} {xs : List α}
    (h : List.Forall₂ (ReadsAs close readOne) texts xs)
    (hhead : ∀ t ∈ texts, ∃ c cs, t = c :: cs ∧ c ≠ close) (rest : List Char) :
    readAll close readOne (writeSeq close texts ++ rest) = some (xs, rest) := by
  cases htexts : texts with
  | nil =>
    subst htexts
    cases h
    simp [readAll]
  | cons t ts =>
    obtain ⟨c, cs, rfl, hc⟩ := hhead t (by simp [htexts])
    have hfirst : (writeSeq close ((c :: cs) :: ts) ++ rest).head? = some c := by
      cases ts <;> rfl
    rw [readAll, hfirst, if_neg (by simpa using hc), ← htexts]
    refine readSeq_writeSeq hclose h (by simp [htexts]) ?_ rest
    rw [List.length_append]
    exact (length_le_writeSeq close texts).trans (Nat.le_add_right _ _)

end Entries

/-! ## Values -/

section Values

variable {ν : Type}

/-- Induction over a value and what is in it. -/
@[elab_as_elim]
theorem induction {P : Json ν → Prop} (null : P null) (bool : ∀ b, P (bool b)) (num : ∀ n, P (num n))
    (str : ∀ s, P (str s)) (arr : ∀ items, (∀ j ∈ items, P j) → P (arr items))
    (obj : ∀ fields, (∀ f ∈ fields, P f.2) → P (obj fields)) (j : Json ν) : P j := by
  refine Json.rec (motive_1 := P) (motive_2 := fun items => ∀ j ∈ items, P j)
    (motive_3 := fun fields => ∀ f ∈ fields, P f.2) (motive_4 := fun f => P f.2)
    null bool num str arr obj ?_ ?_ ?_ ?_ ?_ j
  · simp
  · exact fun j items hj hitems => List.forall_mem_cons.mpr ⟨hj, hitems⟩
  · simp
  · exact fun f fields hf hfields => List.forall_mem_cons.mpr ⟨hf, hfields⟩
  · exact fun _ _ hj => hj

variable (N : JsonNumbers ν)

theorem writeAll_eq (items : List (Json ν)) : writeAll N items = items.map (write N) := by
  induction items with
  | nil => rfl
  | cons j items ih => rw [writeAll, ih, List.map_cons]

theorem writeFields_eq (fields : List (String × Json ν)) :
    writeFields N fields = fields.map fun f => quote f.1 ++ ':' :: write N f.2 := by
  induction fields with
  | nil => rfl
  | cons f fields ih => rw [writeFields, ih, List.map_cons]

/-- What may follow a value in a text. -/
def Stops (rest : List Char) : Prop := ∀ c ∈ rest.head?, c ∈ [',', ']', '}']

variable {N}

attribute [local simp] write readValue

/-- The number is the longest word of its characters. -/
theorem readNumber_text {rest : List Char} (h : Stops rest) (n : ν) :
    readNumber N (N.text n ++ rest) = some (num n, rest) := by
  have hrest : rest.takeWhile N.isChar = [] ∧ rest.dropWhile N.isChar = rest := by
    cases rest with
    | nil => exact ⟨rfl, rfl⟩
    | cons c cs =>
      have hc : N.isChar c = false := N.isChar_other c (List.mem_append_left _ (h c rfl))
      simp [hc]
  rw [readNumber, List.takeWhile_append_of_pos (N.isChar_text n), List.dropWhile_append_of_pos (N.isChar_text n),
    hrest.1, hrest.2, List.append_nil, N.parse_text]
  rfl

/-- A text that begins with the character of a number is one. -/
theorem readValue_number {c : Char} (hc : N.isChar c = true) (n : ℕ) (cs : List Char) :
    readValue N (n + 1) (c :: cs) = readNumber N (c :: cs) := by
  have hne : ∀ d ∈ ['"', '[', '{', 'n', 't', 'f'], c ≠ d := by
    rintro d hd rfl
    have hfalse := N.isChar_other c (List.mem_append_right [',', ']', '}'] hd)
    rw [hc] at hfalse
    cases hfalse
  simp only [List.forall_mem_cons] at hne
  obtain ⟨hquote, harr, hobj, hnull, htrue, hfalse, -⟩ := hne
  rw [readValue]
  · exact fun _ h => hnull (List.cons.inj h).1
  · exact fun _ h => htrue (List.cons.inj h).1
  · exact fun _ h => hfalse (List.cons.inj h).1
  · exact fun _ h => hquote (List.cons.inj h).1
  · exact fun _ h => harr (List.cons.inj h).1
  · exact fun _ h => hobj (List.cons.inj h).1

theorem head_write (j : Json ν) : ∃ c cs, write N j = c :: cs ∧ c ∉ [',', ']', '}'] := by
  cases j with
  | num n =>
    obtain ⟨c, cs, htext⟩ := List.exists_cons_of_ne_nil (N.text_ne_nil n)
    refine ⟨c, cs, by simp [htext], fun hmem => ?_⟩
    have hchar := N.isChar_text n c (by simp [htext])
    rw [N.isChar_other c (List.mem_append_left _ hmem)] at hchar
    cases hchar
  | null => exact ⟨'n', _, rfl, by decide⟩
  | bool b => cases b with
    | true => exact ⟨'t', _, rfl, by decide⟩
    | false => exact ⟨'f', _, rfl, by decide⟩
  | str s => exact ⟨'"', _, rfl, by decide⟩
  | arr items => exact ⟨'[', _, rfl, by decide⟩
  | obj fields => exact ⟨'{', _, rfl, by decide⟩

/-- The value reads back before what may follow it. -/
def ReadsBack (N : JsonNumbers ν) (n : ℕ) (j : Json ν) : Prop :=
  ∀ rest, Stops rest → readValue N n (write N j ++ rest) = some (j, rest)

theorem stops_close {close : Char} (hclose : close ∈ [']', '}']) {c : Char} (hc : c = ',' ∨ c = close)
    (cs : List Char) : Stops (c :: cs) := by
  intro d hd
  obtain rfl := Option.some.inj hd
  rcases hc with rfl | rfl
  · simp
  · exact List.mem_cons_of_mem _ hclose

/-- **An array** of such values. -/
theorem readsBack_arr {items : List (Json ν)} {n : ℕ} (h : ∀ j ∈ items, ReadsBack N n j) :
    ReadsBack N (n + 1) (arr items) := by
  intro rest _
  have hall : List.Forall₂ (ReadsAs ']' (readValue N n)) (items.map (write N)) items :=
    List.forall₂_map_left_iff.mpr (List.forall₂_same.mpr fun j hj c cs hc =>
      h j hj _ (stops_close (by decide) hc cs))
  have hhead : ∀ t ∈ items.map (write N), ∃ c cs, t = c :: cs ∧ c ≠ ']' := by
    intro t ht
    obtain ⟨j, -, rfl⟩ := List.mem_map.mp ht
    obtain ⟨c, cs, hc, hne⟩ := head_write (N := N) j
    exact ⟨c, cs, hc, fun heq => hne (by simp [heq])⟩
  rw [write, writeAll_eq, List.cons_append, readValue, readAll_writeSeq (by decide) hall hhead]
  rfl

theorem readField_write {j : Json ν} {n : ℕ} (h : ReadsBack N n j) (key : String) {rest : List Char}
    (hrest : Stops rest) :
    readField (readValue N n) (quote key ++ ':' :: write N j ++ rest) = some ((key, j), rest) := by
  rw [quote, List.cons_append, List.cons_append, readField]
  simp only [List.append_assoc, List.cons_append, List.nil_append, readChars_quote, Option.bind_eq_bind,
    Option.bind_some, h rest hrest, Option.pure_def, String.ofList_toList]

/-- **An object** of such values. -/
theorem readsBack_obj {fields : List (String × Json ν)} {n : ℕ} (h : ∀ f ∈ fields, ReadsBack N n f.2) :
    ReadsBack N (n + 1) (obj fields) := by
  intro rest _
  have hall : List.Forall₂ (ReadsAs '}' (readField (readValue N n)))
      (fields.map fun f => quote f.1 ++ ':' :: write N f.2) fields :=
    List.forall₂_map_left_iff.mpr (List.forall₂_same.mpr fun f hf c cs hc =>
      readField_write (h f hf) f.1 (stops_close (by decide) hc cs))
  have hhead : ∀ t ∈ fields.map fun f => quote f.1 ++ ':' :: write N f.2, ∃ c cs, t = c :: cs ∧ c ≠ '}' := by
    intro t ht
    obtain ⟨f, -, rfl⟩ := List.mem_map.mp ht
    exact ⟨'"', _, rfl, by decide⟩
  rw [write, writeFields_eq, List.cons_append, readValue, readAll_writeSeq (by decide) hall hhead]
  rfl

theorem readsBack_num (x : ν) (n : ℕ) : ReadsBack N (n + 1) (num x) := by
  intro rest hrest
  obtain ⟨c, cs, htext⟩ := List.exists_cons_of_ne_nil (N.text_ne_nil x)
  have hchar := N.isChar_text x c (by simp [htext])
  rw [write, htext, List.cons_append, readValue_number hchar, ← List.cons_append, ← htext]
  exact readNumber_text hrest x

theorem readsBack_str (s : String) (n : ℕ) : ReadsBack N (n + 1) (str s) := by
  intro rest _
  have hchars : readChars (s.toList.flatMap escape ++ '"' :: rest) = some (s.toList, rest) := readChars_quote s rest
  simp [quote, hchars]

theorem exists_succ_of_length_le {j : Json ν} {n : ℕ} (hn : (write N j).length ≤ n) : ∃ m, n = m + 1 := by
  obtain ⟨c, cs, hc, -⟩ := head_write (N := N) j
  exact Nat.exists_eq_succ_of_ne_zero fun h0 => by simp [hc, h0] at hn

/-- **Every value** reads back; its text is longer than its arrays and objects are deep. -/
theorem readValue_write (j : Json ν) {n : ℕ} (hn : (write N j).length ≤ n) : ReadsBack N n j := by
  obtain ⟨m, rfl⟩ := exists_succ_of_length_le hn
  induction j using Json.induction generalizing m with
  | null => exact fun rest _ => rfl
  | bool b => exact fun rest _ => by cases b <;> rfl
  | num x => exact readsBack_num x m
  | str s => exact readsBack_str s m
  | arr items ih =>
    refine readsBack_arr fun j hj => ?_
    have hlt := length_lt_writeSeq ']' (List.mem_map_of_mem (f := write N) hj)
    rw [write, List.length_cons, writeAll_eq] at hn
    obtain ⟨k, rfl⟩ := exists_succ_of_length_le (hlt.le.trans (Nat.le_of_succ_le_succ hn))
    exact ih j hj k (hlt.le.trans (Nat.le_of_succ_le_succ hn))
  | obj fields ih =>
    refine readsBack_obj fun f hf => ?_
    have hlt := length_lt_writeSeq '}' (List.mem_map_of_mem (f := fun f => quote f.1 ++ ':' :: write N f.2) hf)
    rw [List.length_append, List.length_cons] at hlt
    rw [write, List.length_cons, writeFields_eq] at hn
    have hle : (write N f.2).length ≤ m := by omega
    obtain ⟨k, rfl⟩ := exists_succ_of_length_le hle
    exact ih f hf k hle

/-- **Round trip.** -/
theorem read_write (j : Json ν) : read N (write N j) = some j := by
  have h := readValue_write (N := N) j le_rfl [] (by simp [Stops])
  rw [List.append_nil] at h
  rw [read, h]

end Values

end Json
