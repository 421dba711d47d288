import Mathlib.Tactic
import Mathlib.Data.Bool.AllAny
import Mathlib.Data.List.TakeWhile

/-!
# NetAlert.Lib.Exposition — the Prometheus text format

A page is a list of lines, each a HELP line, a TYPE line, a sample or something to be ignored.  `parse`
follows the grammar of the format: a label value stands in quotes, with backslash, quote and line feed
escaped.  `Line.write` writes a line without any escape.

* `parse_write`: a page written so is read back if no label value needs an escape.
* `parse_write_bad`: the first line that needs one is read as another sample or not at all.
-/

namespace Exposition

structure Sample where
  name : String
  labels : List (String × String)
  value : String
  deriving DecidableEq

inductive Line where
  | help (name text : String)
  | type (name kind : String)
  | sample (s : Sample)
  | other
  deriving DecidableEq

/-! ## Reading -/

def isBlank (c : Char) : Bool := c = ' ' || c = '\t'

/-- A character of a number or of the first word of a comment. -/
def isToken (c : Char) : Bool := !isBlank c && c ≠ '\n'

def isLabelChar (c : Char) : Bool := c.isAlphanum || c = '_'

def isMetricChar (c : Char) : Bool := isLabelChar c || c = ':'

def skip (cs : List Char) : List Char := cs.dropWhile isBlank

/-- The character, after any blanks. -/
def expect (c : Char) (cs : List Char) : Option (List Char) :=
  match skip cs with
  | x :: rest => if x = c then some rest else none
  | [] => none

/-- A name does not begin with a digit. -/
def readName (isChar : Char → Bool) (cs : List Char) : Option (String × List Char) :=
  match cs with
  | c :: _ =>
    if isChar c && !c.isDigit then some (String.ofList (cs.takeWhile isChar), cs.dropWhile isChar) else none
  | [] => none

def unescape (c : Char) : Option Char :=
  if c = '\\' then some '\\' else if c = '"' then some '"' else if c = 'n' then some '\n' else none

/-- A label value, up to the closing quote. -/
def readValue : List Char → Option (List Char × List Char)
  | [] => none
  | c :: rest =>
    if c = '"' then some ([], rest)
    else if c = '\n' then none
    else if c = '\\' then
      match rest with
      | [] => none
      | e :: rest => (unescape e).bind fun x => (readValue rest).map fun (v, rest) => (x :: v, rest)
    else (readValue rest).map fun (v, rest) => (c :: v, rest)

/-- Labels, up to the closing brace. -/
def readLabels : ℕ → List Char → Option (List (String × String) × List Char)
  | 0, _ => none
  | n + 1, cs =>
    match expect '}' cs with
    | some rest => some ([], rest)
    | none => do
      let (key, cs) ← readName isLabelChar (skip cs)
      let cs ← expect '=' cs
      let cs ← expect '"' cs
      let (value, cs) ← readValue cs
      match expect ',' cs with
      | some rest => (readLabels n rest).map fun (labels, rest) => ((key, String.ofList value) :: labels, rest)
      | none => (expect '}' cs).map fun rest => ([(key, String.ofList value)], rest)

/-- The labels of a sample, which may be missing. -/
def readLabelSet (cs : List Char) : Option (List (String × String) × List Char) :=
  match expect '{' cs with
  | some cs => readLabels cs.length cs
  | none => if cs.head?.any isBlank then some ([], cs) else none

/-- A time stamp, which may be missing. -/
def isStamp (cs : List Char) : Bool :=
  match cs with
  | '-' :: digits => !digits.isEmpty && digits.all Char.isDigit
  | digits => digits.all Char.isDigit

section Number

variable (number : String → Bool)

def readSample (cs : List Char) : Option (Sample × List Char) := do
  let (name, cs) ← readName isMetricChar cs
  let (labels, cs) ← readLabelSet cs
  let value := String.ofList ((skip cs).takeWhile isToken)
  let cs := skip ((skip cs).dropWhile isToken)
  let stamp := cs.takeWhile isToken
  let rest ← expect '\n' (cs.dropWhile isToken)
  if (labels.map Prod.fst).Nodup ∧ number value ∧ isStamp stamp then some (⟨name, labels, value⟩, rest) else none

/-- The text of a HELP line. -/
def readHelp : List Char → Option (List Char)
  | [] => some []
  | c :: rest =>
    if c = '\\' then
      match rest with
      | [] => none
      | e :: rest =>
        if e = '\\' then (readHelp rest).map ('\\' :: ·)
        else if e = 'n' then (readHelp rest).map ('\n' :: ·)
        else none
    else (readHelp rest).map (c :: ·)

def kinds : List String := ["counter", "gauge", "histogram", "summary", "untyped"]

/-- A line after its `#`. -/
def readComment (cs : List Char) : Option Line :=
  let word := String.ofList ((skip cs).takeWhile isToken)
  let cs := skip ((skip cs).dropWhile isToken)
  if word = "HELP" then do
    let (name, cs) ← readName isMetricChar cs
    let text ← readHelp (skip cs)
    return .help name (String.ofList text)
  else if word = "TYPE" then do
    let (name, cs) ← readName isMetricChar cs
    let kind := String.ofList ((skip cs).takeWhile isToken)
    if kind ∈ kinds ∧ skip ((skip cs).dropWhile isToken) = [] then some (.type name kind) else none
  else some .other

/-- One line; every line ends with a line feed. -/
def readLine (cs : List Char) : Option (Line × List Char) :=
  match skip cs with
  | [] => none
  | c :: rest =>
    if c = '\n' then some (.other, rest)
    else if c = '#' then
      match rest.dropWhile (· ≠ '\n') with
      | [] => none
      | _ :: after => (readComment (rest.takeWhile (· ≠ '\n'))).map fun line => (line, after)
    else (readSample number (c :: rest)).map fun (s, rest) => (.sample s, rest)

def readLines : ℕ → List Char → Option (List Line)
  | _, [] => some []
  | 0, _ :: _ => none
  | n + 1, c :: cs => do
    let (line, rest) ← readLine number (c :: cs)
    let lines ← readLines n rest
    return line :: lines

/-- A metric has at most one HELP line and one TYPE line, the latter before its samples. -/
def coherent : (helped typed sampled : List String) → List Line → Bool
  | _, _, _, [] => true
  | helped, typed, sampled, .help name _ :: lines =>
    !helped.contains name && coherent (name :: helped) typed sampled lines
  | helped, typed, sampled, .type name _ :: lines =>
    !typed.contains name && !sampled.contains name && coherent helped (name :: typed) sampled lines
  | helped, typed, sampled, .sample s :: lines => coherent helped typed (s.name :: sampled) lines
  | helped, typed, sampled, .other :: lines => coherent helped typed sampled lines

def parse (page : String) : Option (List Line) := do
  let lines ← readLines number page.toList.length page.toList
  if coherent [] [] [] lines then some lines else none

end Number

/-! ## Writing -/

def writeLabel (l : String × String) : List Char := l.1.toList ++ '=' :: '"' :: l.2.toList ++ ['"']

def writeLabels (labels : List (String × String)) : List Char := List.intercalate [','] (labels.map writeLabel)

/-- The labels of a sample in braces, if there are any. -/
def labelText (labels : List (String × String)) : List Char :=
  if labels = [] then [] else '{' :: writeLabels labels ++ ['}']

namespace Line

def write : Line → List Char
  | help name text => "# HELP ".toList ++ name.toList ++ ' ' :: text.toList ++ ['\n']
  | type name kind => "# TYPE ".toList ++ name.toList ++ ' ' :: kind.toList ++ ['\n']
  | sample s => s.name.toList ++ labelText s.labels ++ ' ' :: s.value.toList ++ ['\n']
  | other => ['\n']

end Line

/-! ## Words -/

/-- A name of the given characters. -/
def ValidName (isChar : Char → Bool) (name : String) : Prop :=
  ∃ c cs, name.toList = c :: cs ∧ isChar c = true ∧ c.isDigit = false ∧ ∀ x ∈ cs, isChar x = true

/-- The check for a name. -/
theorem validName_iff {isChar : Char → Bool} {name : String} : ValidName isChar name ↔
    (name.toList.head?.any fun c => isChar c && !c.isDigit) = true ∧ name.toList.all isChar = true := by
  rw [List.all_eq_true]
  unfold ValidName
  cases name.toList with
  | nil => simp
  | cons c cs =>
    constructor
    · rintro ⟨x, xs, heq, hx, hdigit, hxs⟩
      obtain ⟨rfl, rfl⟩ := List.cons.inj heq
      exact ⟨by simp [hx, hdigit], List.forall_mem_cons.mpr ⟨hx, hxs⟩⟩
    · rintro ⟨hhead, hall⟩
      obtain ⟨hc, hcs⟩ := List.forall_mem_cons.mp hall
      exact ⟨c, cs, rfl, hc, by simpa [hc] using hhead, hcs⟩

/-- A value that needs no escape. -/
def Plain (value : String) : Prop := ∀ c ∈ value.toList, c ≠ '"' ∧ c ≠ '\\' ∧ c ≠ '\n'

/-- The check for one. -/
theorem plain_iff {value : String} :
    Plain value ↔ value.toList.all (fun c => c ≠ '"' ∧ c ≠ '\\' ∧ c ≠ '\n') = true :=
  List.all_iff_forall_prop.symm

/-- What a metric name is made of. -/
theorem metric_char {c : Char} (h : isMetricChar c = true) : isBlank c = false ∧ c ≠ '\n' ∧ c ≠ '#' := by
  have hne : ∀ x, isMetricChar x = false → c ≠ x := by
    rintro x hx rfl
    exact absurd h (by simp [hx])
  refine ⟨?_, hne _ (by decide), hne _ (by decide)⟩
  unfold isBlank
  rw [Bool.or_eq_false_iff, decide_eq_false_iff_not, decide_eq_false_iff_not]
  exact ⟨hne _ (by decide), hne _ (by decide)⟩

theorem skip_cons {c : Char} (h : isBlank c = false) (cs : List Char) : skip (c :: cs) = c :: cs := by
  simp [skip, h]

theorem expect_cons {c : Char} (h : isBlank c = false) (cs : List Char) : expect c (c :: cs) = some cs := by
  simp [expect, skip_cons h]

theorem expect_ne {c x : Char} (h : isBlank x = false) (hx : x ≠ c) (cs : List Char) :
    expect c (x :: cs) = none := by
  simp [expect, skip_cons h, hx]

/-- A name is read up to the first character that is not one of its own. -/
theorem readName_eq {isChar : Char → Bool} {name : String} (h : ValidName isChar name) {c : Char}
    (hc : isChar c = false) (cs : List Char) :
    readName isChar (name.toList ++ c :: cs) = some (name, c :: cs) := by
  obtain ⟨x, xs, hname, hx, hdigit, hxs⟩ := h
  have hall : ∀ y ∈ x :: xs, isChar y = true := List.forall_mem_cons.mpr ⟨hx, hxs⟩
  have htake : (x :: xs ++ c :: cs).takeWhile isChar = x :: xs := by
    rw [List.takeWhile_append_of_pos hall]
    simp [hc]
  have hdrop : (x :: xs ++ c :: cs).dropWhile isChar = c :: cs := by
    rw [List.dropWhile_append_of_pos hall]
    simp [hc]
  have hback : String.ofList (x :: xs) = name := by rw [← hname, String.ofList_toList]
  rw [hname]
  show (if _ then some (String.ofList ((x :: xs ++ c :: cs).takeWhile isChar),
    (x :: xs ++ c :: cs).dropWhile isChar) else none) = _
  rw [htake, hdrop, hback, if_pos (by simp [hx, hdigit])]

/-! ## Label values -/

theorem readValue_quote (rest : List Char) : readValue ('"' :: rest) = some ([], rest) := by
  unfold readValue
  rfl

theorem readValue_escape (e : Char) (rest : List Char) : readValue ('\\' :: e :: rest) =
    (unescape e).bind fun x => (readValue rest).map fun (v, rest) => (x :: v, rest) := rfl

theorem readValue_cons {c : Char} (h : c ≠ '"' ∧ c ≠ '\\' ∧ c ≠ '\n') (rest : List Char) :
    readValue (c :: rest) = (readValue rest).map fun (v, rest) => (c :: v, rest) := by
  rw [readValue.eq_def]
  simp [h.1, h.2.1, h.2.2]

theorem readValue_feed (rest : List Char) : readValue ('\n' :: rest) = none := by
  unfold readValue
  rfl

/-- An escape that is read as a backslash is one. -/
theorem unescape_backslash {e : Char} (h : unescape e = some '\\') : e = '\\' := by
  unfold unescape at h
  split_ifs at h with h1 h2
  · exact h1
  · exact absurd h (by decide)
  · exact absurd h (by decide)

/-- A plain value is read as it stands. -/
theorem readValue_plain {v : List Char} (h : ∀ c ∈ v, c ≠ '"' ∧ c ≠ '\\' ∧ c ≠ '\n') (rest : List Char) :
    readValue (v ++ '"' :: rest) = some (v, rest) := by
  induction v with
  | nil => exact readValue_quote rest
  | cons c v ih =>
    obtain ⟨hc, hv⟩ := List.forall_mem_cons.mp h
    rw [List.cons_append, readValue_cons hc, ih hv]
    rfl

/-- What is read as a value that begins with a backslash begins with two. -/
theorem readValue_backslash {v rest rest' w : List Char}
    (h : readValue (v ++ '"' :: rest) = some ('\\' :: w, rest')) :
    ∃ u, v = '\\' :: '\\' :: u ∧ readValue (u ++ '"' :: rest) = some (w, rest') := by
  cases v with
  | nil =>
    rw [List.nil_append, readValue_quote] at h
    simp at h
  | cons c v =>
    rw [List.cons_append] at h
    by_cases hc : c ≠ '"' ∧ c ≠ '\\' ∧ c ≠ '\n'
    · rw [readValue_cons hc] at h
      obtain ⟨⟨x, r⟩, -, hx⟩ := Option.map_eq_some_iff.mp h
      simp only [Prod.mk.injEq, List.cons.injEq] at hx
      exact absurd hx.1.1 hc.2.1
    · have hspecial : c = '"' ∨ c = '\\' ∨ c = '\n' := by tauto
      rcases hspecial with rfl | rfl | rfl
      · rw [readValue_quote] at h
        simp at h
      · obtain ⟨e, cs, hcs⟩ : ∃ e cs, v ++ '"' :: rest = e :: cs := by
          cases v with
          | nil => exact ⟨_, _, rfl⟩
          | cons e u => exact ⟨_, _, rfl⟩
        rw [hcs, readValue_escape] at h
        obtain ⟨x, hx, h⟩ := Option.bind_eq_some_iff.mp h
        obtain ⟨⟨y, r⟩, hy, h⟩ := Option.map_eq_some_iff.mp h
        simp only [Prod.mk.injEq, List.cons.injEq] at h
        obtain ⟨⟨rfl, rfl⟩, rfl⟩ := h
        obtain rfl := unescape_backslash hx
        cases v with
        | nil => simp at hcs
        | cons e u =>
          simp only [List.cons_append, List.cons.injEq] at hcs
          obtain ⟨rfl, rfl⟩ := hcs
          exact ⟨u, rfl, hy⟩
      · rw [readValue_feed] at h
        cases h

/-- A value is never read as itself with more backslashes before it. -/
theorem readValue_ne {v rest rest' : List Char} (k : ℕ) :
    readValue (v ++ '"' :: rest) ≠ some (List.replicate (k + 1) '\\' ++ v, rest') := by
  induction hn : v.length using Nat.strong_induction_on generalizing v k with
  | _ n ih =>
    intro h
    rw [List.replicate_succ, List.cons_append] at h
    obtain ⟨u, rfl, hu⟩ := readValue_backslash h
    have htail : List.replicate k '\\' ++ '\\' :: '\\' :: u = List.replicate (k + 1 + 1) '\\' ++ u := by
      rw [List.replicate_succ', List.replicate_succ', List.append_assoc, List.append_assoc]
      rfl
    rw [htail] at hu
    exact ih u.length (by simp at hn; omega) (k + 1) rfl hu

/-- **A value is read as itself** only if it needs no escape. -/
theorem plain_of_readValue {v rest rest' : List Char} (h : readValue (v ++ '"' :: rest) = some (v, rest')) :
    ∀ c ∈ v, c ≠ '"' ∧ c ≠ '\\' ∧ c ≠ '\n' := by
  induction v with
  | nil => simp
  | cons c v ih =>
    rw [List.cons_append] at h
    by_cases hc : c ≠ '"' ∧ c ≠ '\\' ∧ c ≠ '\n'
    · rw [readValue_cons hc] at h
      obtain ⟨⟨x, r⟩, hx, heq⟩ := Option.map_eq_some_iff.mp h
      simp only [Prod.mk.injEq, List.cons.injEq, true_and] at heq
      obtain ⟨rfl, rfl⟩ := heq
      exact List.forall_mem_cons.mpr ⟨hc, ih hx⟩
    · have hspecial : c = '"' ∨ c = '\\' ∨ c = '\n' := by tauto
      rcases hspecial with rfl | rfl | rfl
      · rw [readValue_quote] at h
        simp at h
      · obtain ⟨u, hu, hread⟩ := readValue_backslash (v := '\\' :: v) h
        obtain rfl : v = '\\' :: u := by simpa using hu
        exact absurd hread (readValue_ne 0)
      · rw [readValue_feed] at h
        cases h

/-! ## Labels -/

/-- **One label**: its key and the text of its value are read, then a comma or the closing brace. -/
theorem readLabels_succ {key : String} (hkey : ValidName isLabelChar key) (n : ℕ) (cs : List Char) :
    readLabels (n + 1) (key.toList ++ '=' :: '"' :: cs) = (readValue cs).bind fun (value, cs) =>
      match expect ',' cs with
      | some rest => (readLabels n rest).map fun (labels, rest) => ((key, String.ofList value) :: labels, rest)
      | none => (expect '}' cs).map fun rest => ([(key, String.ofList value)], rest) := by
  obtain ⟨c, rest, hname, hc, -, -⟩ := id hkey
  have hblank : isBlank c = false := (metric_char (by simp [isMetricChar, hc])).1
  have hbrace : expect '}' (key.toList ++ '=' :: '"' :: cs) = none := by
    rw [hname, List.cons_append]
    apply expect_ne hblank
    rintro rfl
    exact absurd hc (by decide)
  have hskip : skip (key.toList ++ '=' :: '"' :: cs) = key.toList ++ '=' :: '"' :: cs := by
    rw [hname, List.cons_append, skip_cons hblank]
  rw [readLabels, hbrace]
  simp only [hskip, readName_eq hkey (show isLabelChar '=' = false by decide),
    expect_cons (show isBlank '=' = false by decide), expect_cons (show isBlank '"' = false by decide),
    Option.bind_eq_bind, Option.bind_some]

theorem writeLabels_cons (l : String × String) {ls : List (String × String)} (h : ls ≠ []) (rest : List Char) :
    writeLabels (l :: ls) ++ rest = writeLabel l ++ ',' :: (writeLabels ls ++ rest) := by
  obtain ⟨l', ls, rfl⟩ := List.exists_cons_of_ne_nil h
  simp [writeLabels, List.intercalate]

theorem text_last (l : String × String) (cs : List Char) :
    writeLabels [l] ++ cs = l.1.toList ++ '=' :: '"' :: (l.2.toList ++ '"' :: cs) := by
  simp [writeLabels, writeLabel, List.intercalate]

theorem text_cons (l : String × String) {ls : List (String × String)} (h : ls ≠ []) (cs : List Char) :
    writeLabels (l :: ls) ++ cs =
      l.1.toList ++ '=' :: '"' :: (l.2.toList ++ '"' :: ',' :: (writeLabels ls ++ cs)) := by
  rw [writeLabels_cons l h]
  simp [writeLabel]

/-- A plain label that others follow is read off. -/
theorem readLabels_cons {l : String × String} {ls : List (String × String)} (hname : ValidName isLabelChar l.1)
    (hl : Plain l.2) (hls : ls ≠ []) (n : ℕ) (cs : List Char) :
    readLabels (n + 1) (writeLabels (l :: ls) ++ cs) =
      (readLabels n (writeLabels ls ++ cs)).map fun read => (l :: read.1, read.2) := by
  rw [text_cons l hls, readLabels_succ hname, readValue_plain hl, Option.bind_some]
  simp only [expect_cons (show isBlank ',' = false by decide), String.ofList_toList]

/-- **Plain labels** are read as they stand. -/
theorem readLabels_plain {ls : List (String × String)} (hne : ls ≠ [])
    (hnames : ∀ l ∈ ls, ValidName isLabelChar l.1) (hplain : ∀ l ∈ ls, Plain l.2) {n : ℕ} (hn : ls.length ≤ n)
    (rest : List Char) : readLabels n (writeLabels ls ++ '}' :: rest) = some (ls, rest) := by
  induction ls generalizing n with
  | nil => exact absurd rfl hne
  | cons l ls ih =>
    obtain ⟨n, rfl⟩ : ∃ m, n = m + 1 := ⟨n - 1, by simp at hn; omega⟩
    obtain ⟨hname, hnames⟩ := List.forall_mem_cons.mp hnames
    obtain ⟨hl, hls⟩ := List.forall_mem_cons.mp hplain
    by_cases hnil : ls = []
    · subst hnil
      rw [text_last, readLabels_succ hname, readValue_plain hl, Option.bind_some]
      simp only [expect_ne (show isBlank '}' = false by decide) (show '}' ≠ ',' by decide),
        expect_cons (show isBlank '}' = false by decide), Option.map_some, String.ofList_toList]
    · have htail := ih hnil hnames hls (n := n) (by simp at hn; omega)
      rw [readLabels_cons hname hl hnil, htail, Option.map_some]

/-- A value that is not plain is read as another one. -/
theorem readLabels_head {l : String × String} (hname : ValidName isLabelChar l.1) (hl : ¬ Plain l.2) {n : ℕ}
    {tail r : List Char} {labels : List (String × String)}
    (h : readLabels n (l.1.toList ++ '=' :: '"' :: (l.2.toList ++ '"' :: tail)) = some (labels, r)) :
    ∃ value, value ≠ l.2 ∧ (l.1, value) ∈ labels := by
  cases n with
  | zero => cases h
  | succ n =>
    rw [readLabels_succ hname] at h
    obtain ⟨⟨value, cs⟩, hvalue, h⟩ := Option.bind_eq_some_iff.mp h
    refine ⟨String.ofList value, ?_, ?_⟩
    · intro heq
      have hback : value = l.2.toList := by rw [← heq, String.toList_ofList]
      rw [hback] at hvalue
      exact hl (plain_of_readValue hvalue)
    · simp only at h
      split at h
      · obtain ⟨⟨ls, r'⟩, -, h⟩ := Option.map_eq_some_iff.mp h
        rw [← (Prod.mk.inj h).1]
        exact List.mem_cons_self
      · obtain ⟨r', -, h⟩ := Option.map_eq_some_iff.mp h
        rw [← (Prod.mk.inj h).1]
        exact List.mem_cons_self

/-- **The first value that is not plain** is read as another one. -/
theorem readLabels_bad {before after : List (String × String)} {l : String × String}
    (hnames : ∀ x ∈ before ++ l :: after, ValidName isLabelChar x.1) (hbefore : ∀ x ∈ before, Plain x.2)
    (hl : ¬ Plain l.2) {n : ℕ} {rest r : List Char} {labels : List (String × String)}
    (h : readLabels n (writeLabels (before ++ l :: after) ++ '}' :: rest) = some (labels, r)) :
    ∃ value, value ≠ l.2 ∧ (l.1, value) ∈ labels := by
  induction before generalizing n labels with
  | nil =>
    rw [List.nil_append] at h
    by_cases hnil : after = []
    · subst hnil
      rw [text_last] at h
      exact readLabels_head (hnames l (by simp)) hl h
    · rw [text_cons l hnil] at h
      exact readLabels_head (hnames l (by simp)) hl h
  | cons x before ih =>
    obtain ⟨hx, hbefore⟩ := List.forall_mem_cons.mp hbefore
    rw [List.cons_append] at hnames h
    obtain ⟨hname, hnames⟩ := List.forall_mem_cons.mp hnames
    cases n with
    | zero => cases h
    | succ n =>
      rw [readLabels_cons hname hx (by simp)] at h
      obtain ⟨⟨ls, r'⟩, hls, h⟩ := Option.map_eq_some_iff.mp h
      obtain ⟨rfl, rfl⟩ := Prod.mk.inj h
      obtain ⟨value, hne, hmem⟩ := ih hnames hbefore hls
      exact ⟨value, hne, List.mem_cons_of_mem _ hmem⟩

/-! ## Samples -/

/-- The labels that are there: one with an empty value counts as missing. -/
def labelSet (labels : List (String × String)) : List (String × String) := labels.filter fun l => l.2 ≠ ""

/-- A text of a number: no blanks, nor what else ends a word. -/
structure NumberText (number : String → Bool) (text : String) : Prop where
  number : number text = true
  nonempty : text.toList ≠ []
  chars : ∀ c ∈ text.toList, isToken c = true ∧ c ≠ '{'

/-- A sample whose names and value are well formed, whatever its label values are. -/
structure Sample.Shaped (number : String → Bool) (s : Sample) : Prop where
  name : ValidName isMetricChar s.name
  labels : ∀ l ∈ s.labels, ValidName isLabelChar l.1
  value : NumberText number s.value

/-- No label value needs an escape, and no label name is repeated. -/
structure Sample.Clean (s : Sample) : Prop where
  plain : ∀ l ∈ s.labels, Plain l.2
  nodup : (s.labels.map Prod.fst).Nodup

section Sample

variable {number : String → Bool} {s : Sample}

theorem length_le_writeLabels (ls : List (String × String)) : ls.length ≤ (writeLabels ls).length := by
  induction ls with
  | nil => exact Nat.zero_le _
  | cons l ls ih =>
    by_cases hnil : ls = []
    · subst hnil
      simp only [writeLabels, writeLabel, List.map_cons, List.map_nil, List.intercalate_singleton,
        List.length_append, List.length_cons, List.length_nil]
      omega
    · have htext := congrArg List.length (writeLabels_cons l hnil [])
      simp only [List.append_nil, List.length_append, List.length_cons] at htext ⊢
      omega

/-- The value of a sample begins after the blank. -/
theorem skip_value {text : String} (h : NumberText number text) (rest : List Char) :
    skip (' ' :: text.toList ++ '\n' :: rest) = text.toList ++ '\n' :: rest := by
  obtain ⟨c, t, htext⟩ := List.exists_cons_of_ne_nil h.nonempty
  have hblank : isBlank c = false := by
    have hc := (h.chars c (by simp [htext])).1
    simp only [isToken, Bool.and_eq_true, Bool.not_eq_true'] at hc
    exact hc.1
  show (' ' :: (text.toList ++ '\n' :: rest)).dropWhile isBlank = _
  rw [List.dropWhile_cons_of_pos (by decide), htext, List.cons_append]
  exact skip_cons hblank _

/-- It is read up to the end of the line. -/
theorem value_eq {text : String} (h : NumberText number text) (rest : List Char) :
    let cs := ' ' :: text.toList ++ '\n' :: rest
    (skip cs).takeWhile isToken = text.toList ∧ skip ((skip cs).dropWhile isToken) = '\n' :: rest := by
  intro cs
  have hchars : ∀ x ∈ text.toList, isToken x = true := fun x hx => (h.chars x hx).1
  rw [skip_value h rest]
  constructor
  · rw [List.takeWhile_append_of_pos hchars]
    simp [isToken]
  · rw [List.dropWhile_append_of_pos hchars]
    simp [isToken, skip, isBlank]

theorem write_sample (s : Sample) (rest : List Char) : (Line.sample s).write ++ rest =
    s.name.toList ++ (labelText s.labels ++ ' ' :: s.value.toList ++ '\n' :: rest) := by
  show s.name.toList ++ labelText s.labels ++ ' ' :: s.value.toList ++ ['\n'] ++ rest = _
  simp only [List.append_assoc, List.cons_append, List.nil_append]

/-- What follows the name of a sample is no part of it. -/
theorem readName_sample (h : s.Shaped number) (rest : List Char) :
    readName isMetricChar (s.name.toList ++ (labelText s.labels ++ ' ' :: s.value.toList ++ '\n' :: rest)) =
      some (s.name, labelText s.labels ++ ' ' :: s.value.toList ++ '\n' :: rest) := by
  unfold labelText
  split_ifs
  · exact readName_eq h.name (by decide) _
  · exact readName_eq h.name (by decide) _

/-- **A sample**, from what is read of its labels. -/
theorem readSample_eq (h : s.Shaped number) {rest : List Char} {labels : List (String × String)}
    (hlabels : readLabelSet (labelText s.labels ++ ' ' :: s.value.toList ++ '\n' :: rest) =
      some (labels, ' ' :: s.value.toList ++ '\n' :: rest)) :
    readSample number ((Line.sample s).write ++ rest) =
      if (labels.map Prod.fst).Nodup then some (⟨s.name, labels, s.value⟩, rest) else none := by
  obtain ⟨hvalue, hrest⟩ := value_eq h.value rest
  unfold readSample
  rw [write_sample, readName_sample h]
  simp only [Option.bind_eq_bind, Option.bind_some, hlabels, hvalue, hrest]
  simp [isToken, isStamp, expect, skip, isBlank, h.value.number]

theorem readLabelSet_nil (h : s.Shaped number) (rest : List Char) :
    readLabelSet (labelText [] ++ ' ' :: s.value.toList ++ '\n' :: rest) =
      some ([], ' ' :: s.value.toList ++ '\n' :: rest) := by
  obtain ⟨c, t, htext⟩ := List.exists_cons_of_ne_nil h.value.nonempty
  have hbrace : c ≠ '{' := (h.value.chars c (by simp [htext])).2
  have hnone : expect '{' (labelText [] ++ ' ' :: s.value.toList ++ '\n' :: rest) = none := by
    show (match skip (' ' :: s.value.toList ++ '\n' :: rest) with
      | x :: rest => if x = '{' then some rest else none
      | [] => none) = none
    rw [skip_value h.value, htext]
    exact if_neg hbrace
  unfold readLabelSet
  rw [hnone]
  rfl

theorem readLabelSet_cons {labels : List (String × String)} (hne : labels ≠ []) (cs : List Char) :
    ∃ n ≥ labels.length,
      readLabelSet (labelText labels ++ cs) = readLabels n (writeLabels labels ++ '}' :: cs) := by
  have hopen : expect '{' (labelText labels ++ cs) = some (writeLabels labels ++ '}' :: cs) := by
    have htext : labelText labels ++ cs = '{' :: (writeLabels labels ++ '}' :: cs) := by
      simp [labelText, hne]
    rw [htext]
    exact expect_cons (by decide) _
  refine ⟨(writeLabels labels ++ '}' :: cs).length, ?_, by simp only [readLabelSet, hopen]⟩
  have hlen := length_le_writeLabels labels
  rw [List.length_append]
  omega

/-- **A sample with plain labels** is read as it stands, unless a label name is repeated. -/
theorem readSample_plain (h : s.Shaped number) (hplain : ∀ l ∈ s.labels, Plain l.2) (rest : List Char) :
    readSample number ((Line.sample s).write ++ rest) =
      if (s.labels.map Prod.fst).Nodup then some (s, rest) else none := by
  apply readSample_eq h
  by_cases hnil : s.labels = []
  · rw [hnil]
    exact readLabelSet_nil h rest
  · obtain ⟨n, hn, hread⟩ := readLabelSet_cons hnil (' ' :: s.value.toList ++ '\n' :: rest)
    rw [List.append_assoc, hread]
    exact readLabels_plain hnil h.labels hplain hn _

theorem readSample_clean (h : s.Shaped number) (hs : s.Clean) (rest : List Char) :
    readSample number ((Line.sample s).write ++ rest) = some (s, rest) := by
  rw [readSample_plain h hs.plain, if_pos hs.nodup]

/-- The first element of a list that fails a test. -/
theorem exists_first {α : Type} {P : α → Prop} {l : List α} (h : ¬ ∀ x ∈ l, P x) :
    ∃ before x after, l = before ++ x :: after ∧ (∀ y ∈ before, P y) ∧ ¬ P x := by
  induction l with
  | nil => exact absurd (by simp) h
  | cons a l ih =>
    by_cases ha : P a
    · have hl : ¬ ∀ x ∈ l, P x := fun hall => h (List.forall_mem_cons.mpr ⟨ha, hall⟩)
      obtain ⟨before, x, after, rfl, hbefore, hx⟩ := ih hl
      exact ⟨a :: before, x, after, rfl, List.forall_mem_cons.mpr ⟨ha, hbefore⟩, hx⟩
    · exact ⟨[], a, l, rfl, by simp, ha⟩

/-- Labels with one value changed are other labels. -/
theorem labelSet_not_perm {labels labels' : List (String × String)} (hnodup : (labels'.map Prod.fst).Nodup)
    {l : String × String} (hl : l ∈ labels) (hne : l.2 ≠ "") {value : String} (hvalue : value ≠ l.2)
    (hmem : (l.1, value) ∈ labels') : ¬ (labelSet labels').Perm (labelSet labels) := by
  intro hperm
  have hin : l ∈ labelSet labels := List.mem_filter.mpr ⟨hl, by simpa using hne⟩
  have hin' : l ∈ labels' := List.mem_of_mem_filter (hperm.mem_iff.mpr hin)
  have heq : (l.1, value) = l := List.inj_on_of_nodup_map hnodup hmem hin' rfl
  exact hvalue (congrArg Prod.snd heq)

/-- **A sample that is not clean** is read as one with other labels, or not at all. -/
theorem readSample_bad (h : s.Shaped number) (hs : ¬ s.Clean) {rest r : List Char} {s' : Sample}
    (hread : readSample number ((Line.sample s).write ++ rest) = some (s', r)) :
    s'.name = s.name ∧ ¬ (labelSet s'.labels).Perm (labelSet s.labels) := by
  by_cases hplain : ∀ l ∈ s.labels, Plain l.2
  · -- a name is repeated
    rw [readSample_plain h hplain, if_neg fun hnodup => hs ⟨hplain, hnodup⟩] at hread
    cases hread
  · -- some value needs an escape
    obtain ⟨before, l, after, hsplit, hbefore, hl⟩ := exists_first hplain
    have hnil : s.labels ≠ [] := by simp [hsplit]
    obtain ⟨n, -, hset⟩ := readLabelSet_cons hnil (' ' :: s.value.toList ++ '\n' :: rest)
    unfold readSample at hread
    rw [write_sample, readName_sample h, Option.bind_eq_bind, Option.bind_some] at hread
    obtain ⟨⟨labels, cs⟩, hlabels, hread⟩ := Option.bind_eq_some_iff.mp hread
    obtain ⟨rest', -, hread⟩ := Option.bind_eq_some_iff.mp hread
    split_ifs at hread with hok
    obtain ⟨rfl, rfl⟩ := Prod.mk.inj (Option.some.inj hread)
    refine ⟨rfl, ?_⟩
    rw [List.append_assoc, hset, hsplit] at hlabels
    obtain ⟨value, hvalue, hmem⟩ := readLabels_bad (by rw [← hsplit]; exact h.labels) hbefore hl hlabels
    apply labelSet_not_perm hok.1 (by rw [hsplit]; simp) _ hvalue hmem
    intro hempty
    exact hl (by simp [Plain, hempty])

end Sample

/-! ## Comments -/

/-- The text of a HELP line that needs no escape. -/
structure HelpText (text : String) : Prop where
  head : ∀ c ∈ text.toList.head?, isBlank c = false
  chars : ∀ c ∈ text.toList, c ≠ '\\' ∧ c ≠ '\n'

theorem skip_eq {cs : List Char} (h : ∀ c ∈ cs.head?, isBlank c = false) : skip cs = cs := by
  cases cs with
  | nil => rfl
  | cons c cs => exact skip_cons (h c rfl) cs

theorem skip_blank (cs : List Char) : skip (' ' :: cs) = skip cs := by
  unfold skip
  exact List.dropWhile_cons_of_pos (by decide)

theorem metric_head {name : String} (h : ValidName isMetricChar name) (cs : List Char) :
    skip (name.toList ++ cs) = name.toList ++ cs := by
  obtain ⟨c, rest, hname, hc, -, -⟩ := h
  rw [hname, List.cons_append, skip_cons (metric_char hc).1]

theorem readHelp_eq {text : List Char} (h : ∀ c ∈ text, c ≠ '\\' ∧ c ≠ '\n') : readHelp text = some text := by
  induction text with
  | nil => rfl
  | cons c text ih =>
    obtain ⟨hc, htext⟩ := List.forall_mem_cons.mp h
    rw [readHelp.eq_def]
    simp only [if_neg hc.1, ih htext, Option.map_some]

/-- The first word of a comment. -/
theorem readComment_help (cs : List Char) : readComment (" HELP ".toList ++ cs) =
    (readName isMetricChar (skip cs)).bind fun (name, cs) =>
      (readHelp (skip cs)).bind fun text => some (.help name (String.ofList text)) := by
  have hword : (skip (" HELP ".toList ++ cs)).takeWhile isToken = "HELP".toList := rfl
  have hrest : skip ((skip (" HELP ".toList ++ cs)).dropWhile isToken) = skip cs := skip_blank cs
  unfold readComment
  simp only [hword, hrest, String.ofList_toList, if_pos]
  rfl

theorem readComment_type (cs : List Char) : readComment (" TYPE ".toList ++ cs) =
    (readName isMetricChar (skip cs)).bind fun (name, cs) =>
      let kind := String.ofList ((skip cs).takeWhile isToken)
      if kind ∈ kinds ∧ skip ((skip cs).dropWhile isToken) = [] then some (.type name kind) else none := by
  have hword : (skip (" TYPE ".toList ++ cs)).takeWhile isToken = "TYPE".toList := rfl
  have hrest : skip ((skip (" TYPE ".toList ++ cs)).dropWhile isToken) = skip cs := skip_blank cs
  unfold readComment
  simp only [hword, hrest, String.ofList_toList, if_pos, if_neg (show "TYPE" ≠ "HELP" by decide)]
  rfl

/-! ## Lines -/

section Lines

variable {number : String → Bool}

namespace Line

/-- A line whose words are well formed, whatever the label values of a sample are. -/
def Shaped (number : String → Bool) : Line → Prop
  | help name text => ValidName isMetricChar name ∧ HelpText text
  | type name kind => ValidName isMetricChar name ∧ kind ∈ kinds
  | sample s => s.Shaped number
  | other => True

/-- A line that is the same with escapes and without. -/
def Clean : Line → Prop
  | sample s => s.Clean
  | _ => True

end Line

theorem ne_feed_of_metric {name : String} (h : ValidName isMetricChar name) : ∀ c ∈ name.toList, c ≠ '\n' := by
  obtain ⟨c, cs, hname, hc, -, hcs⟩ := h
  rw [hname, List.forall_mem_cons]
  exact ⟨(metric_char hc).2.1, fun x hx => (metric_char (hcs x hx)).2.1⟩

/-- A comment ends at the line feed. -/
theorem readLine_comment {text : List Char} (h : ∀ c ∈ text, c ≠ '\n') (rest : List Char) :
    readLine number ('#' :: (text ++ '\n' :: rest)) = (readComment text).map fun line => (line, rest) := by
  have hall : ∀ c ∈ text, decide (c ≠ '\n') = true := fun c hc => decide_eq_true (h c hc)
  have htake : (text ++ '\n' :: rest).takeWhile (· ≠ '\n') = text := by
    rw [List.takeWhile_append_of_pos hall]
    simp
  have hdrop : (text ++ '\n' :: rest).dropWhile (· ≠ '\n') = '\n' :: rest := by
    rw [List.dropWhile_append_of_pos hall]
    simp
  unfold readLine
  rw [skip_cons (by decide)]
  simp only [if_neg (show '#' ≠ '\n' by decide), if_pos, htake, hdrop]

theorem readLine_help {name text : String} (hname : ValidName isMetricChar name) (htext : HelpText text)
    (rest : List Char) : readLine number ((Line.help name text).write ++ rest) = some (.help name text, rest) := by
  have hwrite : (Line.help name text).write ++ rest =
      '#' :: ((" HELP ".toList ++ (name.toList ++ ' ' :: text.toList)) ++ '\n' :: rest) := by
    show '#' :: (" HELP ".toList ++ name.toList ++ ' ' :: text.toList ++ ['\n'] ++ rest) = _
    simp only [List.append_assoc, List.cons_append, List.nil_append]
  have hfeed : ∀ c ∈ " HELP ".toList ++ (name.toList ++ ' ' :: text.toList), c ≠ '\n' := by
    simp only [List.forall_mem_append, List.forall_mem_cons]
    exact ⟨List.all_iff_forall_prop.mp (by decide), ne_feed_of_metric hname, by decide,
      fun c hc => (htext.chars c hc).2⟩
  rw [hwrite, readLine_comment hfeed, readComment_help, metric_head hname, readName_eq hname (by decide),
    Option.bind_some]
  simp only [skip_blank, skip_eq htext.head, readHelp_eq htext.chars, Option.bind_some, String.ofList_toList,
    Option.map_some]

/-- The kinds are words. -/
theorem kind_word : ∀ kind ∈ kinds, (∀ c ∈ kind.toList.head?, isBlank c = false) ∧
    ∀ c ∈ kind.toList, isToken c = true := by
  simp only [kinds, List.forall_mem_cons, List.not_mem_nil, IsEmpty.forall_iff, implies_true, and_true]
  refine ⟨?_, ?_, ?_, ?_, ?_⟩ <;> exact ⟨by simp [isBlank], List.all_eq_true.mp (by decide)⟩

theorem readLine_type {name kind : String} (hname : ValidName isMetricChar name) (hkind : kind ∈ kinds)
    (rest : List Char) : readLine number ((Line.type name kind).write ++ rest) = some (.type name kind, rest) := by
  obtain ⟨hhead, hchars⟩ := kind_word kind hkind
  have hwrite : (Line.type name kind).write ++ rest =
      '#' :: ((" TYPE ".toList ++ (name.toList ++ ' ' :: kind.toList)) ++ '\n' :: rest) := by
    show '#' :: (" TYPE ".toList ++ name.toList ++ ' ' :: kind.toList ++ ['\n'] ++ rest) = _
    simp only [List.append_assoc, List.cons_append, List.nil_append]
  have hfeed : ∀ c ∈ " TYPE ".toList ++ (name.toList ++ ' ' :: kind.toList), c ≠ '\n' := by
    simp only [List.forall_mem_append, List.forall_mem_cons]
    refine ⟨List.all_iff_forall_prop.mp (by decide), ne_feed_of_metric hname, by decide, ?_⟩
    rintro c hc rfl
    exact absurd (hchars _ hc) (by decide)
  have htake : kind.toList.takeWhile isToken = kind.toList := List.takeWhile_eq_self_iff.mpr hchars
  have hdrop : kind.toList.dropWhile isToken = [] := List.dropWhile_eq_nil_iff.mpr hchars
  rw [hwrite, readLine_comment hfeed, readComment_type, metric_head hname, readName_eq hname (by decide),
    Option.bind_some]
  simp only [skip_blank, skip_eq hhead, htake, hdrop, String.ofList_toList, hkind, true_and]
  rfl

/-- A sample is read as a sample. -/
theorem readLine_sample {s : Sample} (h : s.Shaped number) (rest : List Char) :
    readLine number ((Line.sample s).write ++ rest) =
      (readSample number ((Line.sample s).write ++ rest)).map fun (s, rest) => (.sample s, rest) := by
  obtain ⟨c, cs, hname, hc, -, -⟩ := id h.name
  have hwrite : ∃ tail, (Line.sample s).write ++ rest = c :: tail := by
    rw [write_sample, hname]
    exact ⟨_, rfl⟩
  obtain ⟨tail, htail⟩ := hwrite
  obtain ⟨hblank, hfeed, hhash⟩ := metric_char hc
  rw [htail]
  unfold readLine
  rw [skip_cons hblank]
  simp only [if_neg hfeed, if_neg hhash]

/-- **A clean line** is read as it stands. -/
theorem readLine_write {line : Line} (h : line.Shaped number) (hclean : line.Clean) (rest : List Char) :
    readLine number (line.write ++ rest) = some (line, rest) := by
  cases line with
  | help name text => exact readLine_help h.1 h.2 rest
  | type name kind => exact readLine_type h.1 h.2 rest
  | sample s =>
    rw [readLine_sample h, readSample_clean h hclean]
    rfl
  | other => rfl

/-- **A line that is not clean** is read as a sample with other labels, or not at all. -/
theorem readLine_bad {s : Sample} (h : s.Shaped number) (hclean : ¬ s.Clean) {rest r : List Char} {line : Line}
    (hread : readLine number ((Line.sample s).write ++ rest) = some (line, r)) :
    ∃ s', line = .sample s' ∧ s'.name = s.name ∧ ¬ (labelSet s'.labels).Perm (labelSet s.labels) := by
  rw [readLine_sample h] at hread
  obtain ⟨⟨s', r'⟩, hs', heq⟩ := Option.map_eq_some_iff.mp hread
  obtain ⟨rfl, rfl⟩ := Prod.mk.inj heq
  obtain ⟨hname, hperm⟩ := readSample_bad h hclean hs'
  exact ⟨s', rfl, hname, hperm⟩

/-! ## Pages -/

def page (lines : List Line) : String := String.ofList (lines.flatMap Line.write)

theorem page_append (lines lines' : List Line) : page (lines ++ lines') = page lines ++ page lines' := by
  unfold page
  rw [List.flatMap_append, String.ofList_append]

theorem page_flatMap {α : Type} (f : α → List Line) (l : List α) :
    page (l.flatMap f) = String.join (l.map fun x => page (f x)) := by
  induction l with
  | nil => rfl
  | cons x l ih => rw [List.flatMap_cons, page_append, ih, List.map_cons, String.join_cons]

theorem toList_page_singleton (line : Line) : (page [line]).toList = line.write := by
  rw [page, String.toList_ofList, List.flatMap_singleton]

theorem page_help (name text : String) : page [.help name text] = "# HELP " ++ name ++ " " ++ text ++ "\n" := by
  apply String.toList_inj.mp
  rw [toList_page_singleton]
  show "# HELP ".toList ++ name.toList ++ ' ' :: text.toList ++ ['\n'] = _
  simp only [String.toList_append, List.append_assoc, List.cons_append]
  rfl

theorem page_type (name kind : String) : page [.type name kind] = "# TYPE " ++ name ++ " " ++ kind ++ "\n" := by
  apply String.toList_inj.mp
  rw [toList_page_singleton]
  show "# TYPE ".toList ++ name.toList ++ ' ' :: kind.toList ++ ['\n'] = _
  simp only [String.toList_append, List.append_assoc, List.cons_append]
  rfl

theorem page_sample (name value : String) (l : String × String) (ls : List (String × String)) :
    page [.sample ⟨name, l :: ls, value⟩] = name ++ "\x7b" ++ l.1 ++ "=\"" ++ l.2 ++ "\"" ++
      String.join (ls.map fun l => "," ++ l.1 ++ "=\"" ++ l.2 ++ "\"") ++ "\x7d " ++ value ++ "\n" := by
  have hlabels : ∀ l, writeLabels (l :: ls) = writeLabel l ++ ls.flatMap fun l => ',' :: writeLabel l := by
    induction ls with
    | nil => simp [writeLabels, List.intercalate]
    | cons l' ls ih =>
      intro l
      have hcons := writeLabels_cons l (List.cons_ne_nil l' ls) []
      rw [List.append_nil, List.append_nil, ih] at hcons
      simpa using hcons
  apply String.toList_inj.mp
  rw [toList_page_singleton]
  show name.toList ++ ('{' :: writeLabels (l :: ls) ++ ['}']) ++ ' ' :: value.toList ++ ['\n'] = _
  simp [hlabels, writeLabel, List.flatMap_map]

theorem page_bare (name value : String) : page [.sample ⟨name, [], value⟩] = name ++ " " ++ value ++ "\n" := by
  apply String.toList_inj.mp
  rw [toList_page_singleton]
  show name.toList ++ [] ++ ' ' :: value.toList ++ ['\n'] = _
  simp

theorem Line.write_ne_nil (line : Line) : line.write ≠ [] := by
  cases line with
  | help | type | other => exact List.cons_ne_nil _ _
  | sample s => exact List.append_ne_nil_of_right_ne_nil _ (List.cons_ne_nil _ _)

theorem readLines_succ {cs : List Char} (h : cs ≠ []) (n : ℕ) : readLines number (n + 1) cs =
    (readLine number cs).bind fun (line, rest) => (readLines number n rest).map (line :: ·) := by
  cases cs with
  | nil => exact absurd rfl h
  | cons c cs =>
    rw [readLines]
    cases readLine number (c :: cs) with
    | none => rfl
    | some read =>
      simp only [Option.bind_eq_bind, Option.bind_some, Option.map_eq_bind, Function.comp_def, Option.pure_def]

/-- **Clean lines** are read one by one. -/
theorem readLines_append {lines : List Line} (hshaped : ∀ line ∈ lines, line.Shaped number)
    (hclean : ∀ line ∈ lines, line.Clean) (n : ℕ) (rest : List Char) :
    readLines number (lines.length + n) (lines.flatMap Line.write ++ rest) =
      (readLines number n rest).map (lines ++ ·) := by
  induction lines with
  | nil => simp
  | cons line lines ih =>
    obtain ⟨hline, hshaped⟩ := List.forall_mem_cons.mp hshaped
    obtain ⟨hcl, hclean⟩ := List.forall_mem_cons.mp hclean
    have hfuel : (line :: lines).length + n = lines.length + n + 1 := by
      rw [List.length_cons]
      omega
    have hne : line.write ++ (lines.flatMap Line.write ++ rest) ≠ [] := by simp [line.write_ne_nil]
    rw [hfuel, List.flatMap_cons, List.append_assoc, readLines_succ hne, readLine_write hline hcl,
      Option.bind_some]
    simp only [ih hshaped hclean, Option.map_map]
    rfl

theorem length_le_page (lines : List Line) : lines.length ≤ (lines.flatMap Line.write).length := by
  induction lines with
  | nil => exact Nat.zero_le _
  | cons line lines ih =>
    have hpos := List.length_pos_of_ne_nil line.write_ne_nil
    rw [List.length_cons, List.flatMap_cons, List.length_append]
    omega

/-- **A clean page is read as it stands.** -/
theorem parse_write {lines : List Line} (hshaped : ∀ line ∈ lines, line.Shaped number)
    (hclean : ∀ line ∈ lines, line.Clean) (hcoherent : coherent [] [] [] lines = true) :
    parse number (page lines) = some lines := by
  obtain ⟨n, hn⟩ := Nat.exists_eq_add_of_le (length_le_page lines)
  have hread := readLines_append hshaped hclean n []
  rw [List.append_nil, ← hn] at hread
  have hnil : readLines number n [] = some [] := by cases n <;> rfl
  unfold parse page
  rw [String.toList_ofList, hread, hnil]
  simp only [Option.map_some, List.append_nil, Option.bind_eq_bind, Option.bind_some, hcoherent, if_pos]

/-- **The first line that is not clean** is read as a sample with other labels, if the page is read at all. -/
theorem parse_write_bad {before after : List Line} {s : Sample}
    (hshaped : ∀ line ∈ before ++ .sample s :: after, line.Shaped number) (hbefore : ∀ line ∈ before, line.Clean)
    (hs : ¬ s.Clean) {out : List Line} (h : parse number (page (before ++ .sample s :: after)) = some out) :
    ∃ s' more, out = before ++ .sample s' :: more ∧ s'.name = s.name ∧
      ¬ (labelSet s'.labels).Perm (labelSet s.labels) := by
  obtain ⟨hshapedBefore, hshaped⟩ := List.forall_mem_append.mp hshaped
  obtain ⟨hline, -⟩ := List.forall_mem_cons.mp hshaped
  have hlen := length_le_page (before ++ .sample s :: after)
  rw [List.length_append, List.length_cons] at hlen
  obtain ⟨n, hn⟩ := Nat.exists_eq_add_of_le hlen
  have hfuel : before.length + (after.length + 1) + n = before.length + (after.length + n + 1) := by omega
  unfold parse page at h
  rw [String.toList_ofList, hn, hfuel, List.flatMap_append, readLines_append hshapedBefore hbefore,
    List.flatMap_cons, readLines_succ (by simp [Line.write_ne_nil])] at h
  simp only [Option.bind_eq_bind, Option.bind_eq_some_iff, Option.map_eq_some_iff] at h
  obtain ⟨lines, ⟨_, ⟨⟨line, r⟩, hread, tail, -, rfl⟩, rfl⟩, hout⟩ := h
  split_ifs at hout
  obtain rfl := Option.some.inj hout
  obtain ⟨s', rfl, hname, hperm⟩ := readLine_bad hline hs hread
  exact ⟨s', tail, rfl, hname, hperm⟩

/-- The samples of a metric. -/
def samplesOf (name : String) (lines : List Line) : List Sample :=
  lines.filterMap fun line =>
    match line with
    | .sample s => if s.name = name then some s else none
    | _ => none

/-- **A page is read with the labels it was written with** only if it is clean. -/
theorem clean_of_parse {lines out : List Line} (hshaped : ∀ line ∈ lines, line.Shaped number)
    (h : parse number (page lines) = some out)
    (hsame : ∀ s, .sample s ∈ lines → ¬ s.Clean →
      List.Forall₂ (fun s' s => (labelSet s'.labels).Perm (labelSet s.labels)) (samplesOf s.name out)
        (samplesOf s.name lines)) : ∀ line ∈ lines, line.Clean := by
  by_contra hbad
  obtain ⟨before, line, after, rfl, hbefore, hline⟩ := exists_first hbad
  cases line with
  | help | type | other => exact hline trivial
  | sample s =>
    obtain ⟨s', more, rfl, hname, hperm⟩ := parse_write_bad hshaped hbefore hline h
    have hfor := hsame s (by simp) hline
    have hout : samplesOf s.name (before ++ .sample s' :: more) =
        samplesOf s.name before ++ s' :: samplesOf s.name more := by simp [samplesOf, hname]
    have hin : samplesOf s.name (before ++ .sample s :: after) =
        samplesOf s.name before ++ s :: samplesOf s.name after := by simp [samplesOf]
    rw [hout, hin] at hfor
    have hdrop := List.forall₂_drop (samplesOf s.name before).length hfor
    rw [List.drop_left, List.drop_left] at hdrop
    cases hdrop with
    | cons hhead _ => exact hperm hhead

end Lines

/-! ## Families -/

/-- The HELP and TYPE lines of a metric. -/
def header (name help kind : String) : String :=
  "# HELP " ++ name ++ " " ++ help ++ "\n" ++ "# TYPE " ++ name ++ " " ++ kind ++ "\n"

/-- The lines of one metric: HELP, TYPE and its samples. -/
structure Family where
  name : String
  help : String
  kind : String
  samples : List (List (String × String) × String)

namespace Family

variable (f : Family)

def rows : List Sample := f.samples.map fun (labels, value) => ⟨f.name, labels, value⟩

def lines : List Line := .help f.name f.help :: .type f.name f.kind :: f.rows.map .sample

/-- The text of a family. -/
theorem page_lines : page f.lines = header f.name f.help f.kind ++
    String.join (f.samples.map fun (labels, value) => page [.sample ⟨f.name, labels, value⟩]) := by
  have hrows : f.rows.map Line.sample =
      f.samples.flatMap fun (labels, value) => [.sample ⟨f.name, labels, value⟩] := by
    rw [rows, List.map_map, List.map_eq_flatMap]
    rfl
  have hsplit : f.lines = [.help f.name f.help] ++ ([.type f.name f.kind] ++ f.rows.map Line.sample) := rfl
  rw [hsplit, page_append, page_append, page_help, page_type, hrows, page_flatMap]
  unfold header
  simp only [String.append_assoc]

theorem name_of_mem_rows {s : Sample} (h : s ∈ f.rows) : s.name = f.name := by
  obtain ⟨⟨labels, value⟩, -, rfl⟩ := List.mem_map.mp h
  rfl

theorem samplesOf_self : samplesOf f.name f.lines = f.rows := by
  have hrows : ∀ rows : List Sample, (∀ s ∈ rows, s.name = f.name) →
      samplesOf f.name (rows.map .sample) = rows := by
    intro rows h
    induction rows with
    | nil => rfl
    | cons s rows ih =>
      obtain ⟨hs, hrows⟩ := List.forall_mem_cons.mp h
      simpa [samplesOf, hs] using ih hrows
  exact hrows f.rows fun s => f.name_of_mem_rows

theorem samplesOf_ne {name : String} (h : f.name ≠ name) : samplesOf name f.lines = [] := by
  apply List.filterMap_eq_nil_iff.mpr
  intro line hline
  simp only [lines, List.mem_cons, List.mem_map] at hline
  obtain rfl | rfl | ⟨s, hs, rfl⟩ := hline
  · rfl
  · rfl
  · exact if_neg (by rwa [f.name_of_mem_rows hs])

/-- **The samples of a metric** are those of its family. -/
theorem samplesOf_lines {fs : List Family} (hnodup : (fs.map Family.name).Nodup) {f : Family} (hf : f ∈ fs) :
    samplesOf f.name (fs.flatMap Family.lines) = f.rows := by
  have hcons : ∀ (g : Family) (gs : List Family), samplesOf f.name ((g :: gs).flatMap Family.lines) =
      samplesOf f.name g.lines ++ samplesOf f.name (gs.flatMap Family.lines) := by
    intro g gs
    rw [List.flatMap_cons]
    exact List.filterMap_append
  have hnone : ∀ gs : List Family, (∀ g ∈ gs, g.name ≠ f.name) →
      samplesOf f.name (gs.flatMap Family.lines) = [] := by
    intro gs h
    induction gs with
    | nil => rfl
    | cons g gs ih =>
      obtain ⟨hg, hgs⟩ := List.forall_mem_cons.mp h
      rw [hcons, g.samplesOf_ne hg, ih hgs, List.nil_append]
  induction fs with
  | nil => cases hf
  | cons g gs ih =>
    rw [List.map_cons, List.nodup_cons] at hnodup
    rw [hcons]
    rcases List.mem_cons.mp hf with rfl | hf
    · have hgs : ∀ g ∈ gs, g.name ≠ f.name := fun g hg heq => hnodup.1 (heq ▸ List.mem_map_of_mem hg)
      rw [f.samplesOf_self, hnone gs hgs, List.append_nil]
    · have hg : g.name ≠ f.name := fun heq => hnodup.1 (heq ▸ List.mem_map_of_mem hf)
      rw [g.samplesOf_ne hg, ih hnodup.2 hf, List.nil_append]

/-- Samples break no rule. -/
theorem coherent_rows (helped typed : List String) (rest : List Line) (rows : List Sample)
    (sampled : List String) :
    coherent helped typed sampled (rows.map .sample ++ rest) =
      coherent helped typed (rows.reverse.map Sample.name ++ sampled) rest := by
  induction rows generalizing sampled with
  | nil => rfl
  | cons s rows ih =>
    show coherent helped typed (s.name :: sampled) (rows.map .sample ++ rest) = _
    rw [ih]
    simp

/-- **Families of distinct names** follow the rules. -/
theorem coherent_lines {fs : List Family} (hnodup : (fs.map Family.name).Nodup) :
    coherent [] [] [] (fs.flatMap Family.lines) = true := by
  have hgen : ∀ helped typed sampled, (∀ f ∈ fs, f.name ∉ helped ∧ f.name ∉ typed ∧ f.name ∉ sampled) →
      coherent helped typed sampled (fs.flatMap Family.lines) = true := by
    induction fs with
    | nil => intros; rfl
    | cons f fs ih =>
      intro helped typed sampled h
      obtain ⟨⟨hhelped, htyped, hsampled⟩, hfs⟩ := List.forall_mem_cons.mp h
      rw [List.map_cons, List.nodup_cons] at hnodup
      rw [List.flatMap_cons]
      show (!helped.contains f.name && (!typed.contains f.name && !sampled.contains f.name &&
        coherent (f.name :: helped) (f.name :: typed) sampled
          (f.rows.map .sample ++ fs.flatMap Family.lines))) = true
      have hrest : coherent (f.name :: helped) (f.name :: typed) (f.rows.reverse.map Sample.name ++ sampled)
          (fs.flatMap Family.lines) = true := by
        apply ih hnodup.2
        intro g hg
        have hne : g.name ≠ f.name := fun heq => hnodup.1 (heq ▸ List.mem_map_of_mem hg)
        obtain ⟨h1, h2, h3⟩ := hfs g hg
        refine ⟨List.not_mem_cons_of_ne_of_not_mem hne h1, List.not_mem_cons_of_ne_of_not_mem hne h2, ?_⟩
        rw [List.mem_append, not_or]
        refine ⟨fun hmem => ?_, h3⟩
        obtain ⟨s, hs, heq⟩ := List.mem_map.mp hmem
        exact hne (by rw [← heq, f.name_of_mem_rows (List.mem_reverse.mp hs)])
      rw [coherent_rows, hrest]
      simp [hhelped, htyped, hsampled]
  exact hgen [] [] [] (by simp)

/-- A family whose words are well formed. -/
structure Shaped (number : String → Bool) (f : Family) : Prop where
  name : ValidName isMetricChar f.name
  help : HelpText f.help
  kind : f.kind ∈ kinds
  labels : ∀ row ∈ f.samples, ∀ l ∈ row.1, ValidName isLabelChar l.1
  value : ∀ row ∈ f.samples, NumberText number row.2

theorem sample_mem_lines {fs : List Family} {s : Sample} (h : .sample s ∈ fs.flatMap Family.lines) :
    ∃ f ∈ fs, s ∈ f.rows := by
  obtain ⟨f, hf, hs⟩ := List.mem_flatMap.mp h
  exact ⟨f, hf, by simpa [lines] using hs⟩

theorem forall_lines {P : Line → Prop} {fs : List Family} : (∀ line ∈ fs.flatMap Family.lines, P line) ↔
    ∀ f ∈ fs, P (.help f.name f.help) ∧ P (.type f.name f.kind) ∧ ∀ s ∈ f.rows, P (.sample s) := by
  simp only [List.forall_mem_flatMap, lines, List.forall_mem_cons, List.forall_mem_map]

theorem shaped_lines {number : String → Bool} {fs : List Family} (h : ∀ f ∈ fs, f.Shaped number) :
    ∀ line ∈ fs.flatMap Family.lines, line.Shaped number := by
  rw [forall_lines]
  intro f hf
  refine ⟨⟨(h f hf).name, (h f hf).help⟩, ⟨(h f hf).name, (h f hf).kind⟩, ?_⟩
  intro s hs
  obtain ⟨row, hrow, rfl⟩ := List.mem_map.mp hs
  exact ⟨(h f hf).name, (h f hf).labels row hrow, (h f hf).value row hrow⟩

theorem clean_lines {fs : List Family} : (∀ line ∈ fs.flatMap Family.lines, line.Clean) ↔
    ∀ f ∈ fs, ∀ s ∈ f.rows, s.Clean := by
  rw [forall_lines]
  exact forall₂_congr fun f _ => ⟨fun h => h.2.2, fun h => ⟨trivial, trivial, h⟩⟩

end Family

end Exposition
