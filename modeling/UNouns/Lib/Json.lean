import Mathlib.Data.List.Nodup
import Mathlib.Tactic.Common

/-!
# JSON texts of objects that hold strings

What `JSON.parse` makes of the text of an object whose values are strings.  A text with other values, or
with a character given by its number, is not read here.

* `string`         the characters up to the closing quote;
* `members`        the members of an object, from the first quote on;
* `parse`, `get`   the members of a text, and the value under a key;
* `Plain`          the characters that stand for themselves in a string;
* `parse_object`   a text that is put together from plain strings is read.
-/

set_option linter.unusedVariables false

namespace Json

/-! ## reading -/

def blank (c : Char) : Bool := c = ' ' || c = '\n' || c = '\r' || c = '\t'

def skip (cs : List Char) : List Char := cs.dropWhile blank

/-- after a backslash -/
def unescape : Char → Option Char
  | '"' => some '"'
  | '\\' => some '\\'
  | '/' => some '/'
  | 'b' => some '\x08'
  | 'f' => some '\x0c'
  | 'n' => some '\n'
  | 'r' => some '\r'
  | 't' => some '\t'
  | _ => none

/-- a string after its first quote, and the text after it -/
def string : List Char → Option (List Char × List Char)
  | [] => none
  | '"' :: cs => some ([], cs)
  | '\\' :: c :: cs => do
    let c ← unescape c
    let (s, rest) ← string cs
    some (c :: s, rest)
  | c :: cs =>
    if c.toNat < 0x20 then none
    else do
      let (s, rest) ← string cs
      some (c :: s, rest)

abbrev Member := List Char × List Char

/-- `key : value`, after the first quote -/
def member (cs : List Char) : Option (Member × List Char) := do
  let (key, cs) ← string cs
  match skip cs with
  | ':' :: cs =>
    match skip cs with
    | '"' :: cs => do
      let (value, cs) ← string cs
      some ((key, value), skip cs)
    | _ => none
  | _ => none

/-- with a bound for their number -/
def members : Nat → List Char → Option (List Member × List Char)
  | 0, _ => none
  | n + 1, cs =>
    match skip cs with
    | '"' :: cs =>
      match member cs with
      | some (m, ',' :: cs) => do
        let (ms, rest) ← members n cs
        some (m :: ms, rest)
      | some (m, '\x7d' :: cs) => some ([m], cs)
      | _ => none
    | _ => none

def parse (cs : List Char) : Option (List Member) :=
  match skip cs with
  | '\x7b' :: cs =>
    match skip cs with
    | '\x7d' :: rest => if skip rest = [] then some [] else none
    | _ =>
      match members cs.length cs with
      | some (ms, rest) => if skip rest = [] then some ms else none
      | none => none
  | _ => none

/-- of two members with one key, the last one counts -/
def get (ms : List Member) (key : List Char) : Option (List Char) := ms.reverse.lookup key

/-- where no key is there twice -/
theorem get_of_mem {ms : List Member} (hnodup : (ms.map Prod.fst).Nodup) {key value : List Char}
    (h : (key, value) ∈ ms) : get ms key = some value := by
  obtain ⟨later, earlier, hms⟩ := List.append_of_mem (List.mem_reverse.mpr h)
  refine List.lookup_eq_some_iff.mpr ⟨later, earlier, hms, fun m hm => ?_⟩
  have hkeys : (ms.reverse.map Prod.fst).Nodup := by
    rw [List.map_reverse]
    exact List.nodup_reverse.mpr hnodup
  rw [hms, List.map_append, List.map_cons] at hkeys
  have hne : key ≠ m.1 := fun e =>
    (List.nodup_append.mp hkeys).2.2 m.1 (List.mem_map_of_mem hm) key List.mem_cons_self e.symm
  exact bne_iff_ne.mpr hne

/-! ## plain strings -/

/-- a character that stands for itself -/
def Plain (c : Char) : Prop := 0x20 ≤ c.toNat ∧ c ≠ '"' ∧ c ≠ '\\'

instance (c : Char) : Decidable (Plain c) := inferInstanceAs (Decidable (_ ∧ _ ∧ _))

theorem string_plain {s : List Char} (hs : ∀ c ∈ s, Plain c) (rest : List Char) :
    string (s ++ '"' :: rest) = some (s, rest) := by
  induction s with
  | nil => rfl
  | cons c s ih =>
    obtain ⟨⟨hlow, hquote, hslash⟩, hs⟩ := List.forall_mem_cons.mp hs
    rw [List.cons_append, string, if_neg (Nat.not_lt.mpr hlow), ih hs]
    · rfl
    · exact hquote
    · exact fun _ _ h => absurd h hslash

theorem skip_blanks {bs : List Char} (hbs : ∀ b ∈ bs, blank b = true) {c : Char} (hc : blank c = false)
    (cs : List Char) : skip (bs ++ c :: cs) = c :: cs := by
  induction bs with
  | nil => exact List.dropWhile_cons_of_neg (by rw [hc]; exact Bool.false_ne_true)
  | cons b bs ih =>
    obtain ⟨hb, hbs⟩ := List.forall_mem_cons.mp hbs
    exact (List.dropWhile_cons_of_pos hb).trans (ih hbs)

/-! ## writing -/

/-- a member, with the blanks before its key and before its value -/
structure Entry where
  before : List Char
  key : List Char
  between : List Char
  value : List Char

structure Entry.Good (e : Entry) : Prop where
  before : ∀ c ∈ e.before, blank c = true
  between : ∀ c ∈ e.between, blank c = true
  key : ∀ c ∈ e.key, Plain c
  value : ∀ c ∈ e.value, Plain c

/-- the text of a member, and what comes after it -/
def Entry.text (e : Entry) (rest : List Char) : List Char :=
  e.before ++ '"' :: (e.key ++ '"' :: ':' :: (e.between ++ '"' :: (e.value ++ '"' :: rest)))

def entries : List Entry → List Char
  | [] => ['\x7d']
  | [e] => e.text ['\x7d']
  | e :: es => e.text (',' :: entries es)

def object (es : List Entry) : List Char := '\x7b' :: entries es

theorem member_text {e : Entry} (h : e.Good) {c : Char} (hc : blank c = false) (rest : List Char) :
    member (e.key ++ '"' :: ':' :: (e.between ++ '"' :: (e.value ++ '"' :: c :: rest))) =
      some ((e.key, e.value), c :: rest) := by
  have hcolon : ∀ cs, skip (':' :: cs) = ':' :: cs := fun _ => rfl
  unfold member
  rw [string_plain h.key]
  simp only [Option.bind_eq_bind, Option.bind_some, hcolon, skip_blanks h.between (show blank '"' = false from rfl),
    string_plain h.value]
  have hrest := @skip_blanks [] (fun _ h => absurd h List.not_mem_nil) c hc rest
  rw [List.nil_append] at hrest
  rw [hrest]

theorem members_entries {es : List Entry} (hne : es ≠ []) (h : ∀ e ∈ es, e.Good) :
    ∀ {n : Nat}, es.length ≤ n → members n (entries es) = some (es.map fun e => (e.key, e.value), []) := by
  induction es with
  | nil => exact absurd rfl hne
  | cons e es ih =>
    intro n hn
    obtain ⟨he, hes⟩ := List.forall_mem_cons.mp h
    obtain ⟨n, rfl⟩ := Nat.exists_eq_succ_of_ne_zero (Nat.ne_of_gt (Nat.lt_of_lt_of_le (Nat.succ_pos _) hn))
    have hquote : blank '"' = false := rfl
    cases es with
    | nil =>
      rw [entries, Entry.text, members, skip_blanks he.before hquote]
      simp only [member_text he (show blank '\x7d' = false from rfl)]
      rfl
    | cons e' es =>
      rw [entries, Entry.text, members, skip_blanks he.before hquote]
      · simp only [member_text he (show blank ',' = false from rfl)]
        rw [ih (List.cons_ne_nil _ _) hes (Nat.le_of_succ_le_succ hn)]
        rfl
      · exact List.cons_ne_nil _ _

theorem length_le_entries (es : List Entry) : es.length ≤ (entries es).length := by
  induction es using entries.induct with
  | case1 => exact Nat.zero_le _
  | case2 e =>
    simp only [entries, Entry.text, List.length_append, List.length_cons]
    omega
  | case3 e es hne ih =>
    rw [entries, Entry.text]
    · simp only [List.length_append, List.length_cons]
      omega
    · exact hne

theorem skip_entries {es : List Entry} (hne : es ≠ []) (h : ∀ e ∈ es, e.Good) :
    ∃ rest, skip (entries es) = '"' :: rest := by
  obtain ⟨e, es, rfl⟩ := List.exists_cons_of_ne_nil hne
  have hbefore := (h e List.mem_cons_self).before
  cases es with
  | nil => exact ⟨_, skip_blanks hbefore rfl _⟩
  | cons e' es => exact ⟨_, skip_blanks hbefore rfl _⟩

/-- **A text of plain strings is read.** -/
theorem parse_object {es : List Entry} (hne : es ≠ []) (h : ∀ e ∈ es, e.Good) :
    parse (object es) = some (es.map fun e => (e.key, e.value)) := by
  obtain ⟨rest, hrest⟩ := skip_entries hne h
  have hbrace : skip (object es) = '\x7b' :: entries es := rfl
  unfold parse
  rw [hbrace]
  simp only [hrest, members_entries hne h (length_le_entries es)]
  rfl

end Json
