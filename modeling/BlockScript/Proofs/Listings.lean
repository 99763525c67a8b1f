import BlockScript.Proofs.Statements
import BlockScript.Script.Listing
import Mathlib.Data.List.Forall2

/-!
# The shape of a listing

A listing can be read without knowing the texts and names in it: from left to right, past what
stands between double quotes, where a backslash takes the meaning from the character behind it. All
quotes are closed then, no brace is closed that was not opened, and in the end none is open. A line
ends only behind a statement or behind the brace that opens a body, and before each statement there
are two blanks for each body around it.

* `Listing.Reader`: reading from left to right, with the braces that are open;
* `Listing.Level`: a text in one line that leaves the reader as he was;
* `Expr.level_brief`, `Expr.level_full`, `Listing.level_simple`: so are all parts of a listing;
* `Listing.outline`: the lines that a script should have, and how deep each of them stands;
* `Listing.written_lines`: these are the lines that it has;
* `Listing.follows_outline`: the braces of an outline are balanced;
* `Listing.listing_bracketed`: all of it.
-/

namespace BlockScript

/-! ## 1. Reading -/

namespace Listing

/-- Where in a text a reader is. -/
inductive Mode
  | plain
  /-- Behind a double quote. -/
  | quoted
  /-- Behind a double quote, right behind a backslash. -/
  | escaped
  deriving DecidableEq

/-- One who reads a text. -/
structure Reader where
  mode : Mode
  /-- The braces that are open. -/
  opened : Nat
  deriving DecidableEq

namespace Reader

/-- Reads a character, which closes no brace that is not open. -/
def step? : Reader → Char → Option Reader
  | ⟨.plain, n⟩, c =>
    if c = '"' then some ⟨.quoted, n⟩
    else if c = '\x7b' then some ⟨.plain, n + 1⟩
    else if c = '\x7d' then if n = 0 then none else some ⟨.plain, n - 1⟩
    else some ⟨.plain, n⟩
  | ⟨.quoted, n⟩, c =>
    if c = '"' then some ⟨.plain, n⟩
    else if c = '\\' then some ⟨.escaped, n⟩
    else some ⟨.quoted, n⟩
  | ⟨.escaped, n⟩, _ => some ⟨.quoted, n⟩

/-- Reads a text. -/
def read? (r : Reader) : List Char → Option Reader
  | [] => some r
  | c :: cs => (r.step? c).bind fun r' => r'.read? cs

example : read? ⟨.plain, 0⟩ "say \"a \\\" \x7d\" \x7b".toList = some ⟨.plain, 1⟩ := by decide

example : read? ⟨.plain, 0⟩ "\x7d\x7b".toList = none := by decide

theorem read?_append (r : Reader) (cs ds : List Char) :
    r.read? (cs ++ ds) = (r.read? cs).bind fun r' => r'.read? ds := by
  induction cs generalizing r with
  | nil => rfl
  | cons c cs ih =>
    rw [List.cons_append, read?, read?, Option.bind_assoc]
    exact congrArg _ (funext ih)

end Reader

/-- The characters that mean something to a reader, and the end of a line. -/
def isDelimiter (c : Char) : Bool :=
  c = '"' || c = '\x7b' || c = '\x7d' || c = '\n'

/-- Whether a text has no such character. -/
def isPlain (cs : List Char) : Bool := cs.all fun c => !isDelimiter c

/-- A text in one line that leaves the reader as he was, whatever is open. -/
structure Level (cs : List Char) : Prop where
  read : ∀ n, Reader.read? ⟨.plain, n⟩ cs = some ⟨.plain, n⟩
  oneLine : '\n' ∉ cs

namespace Level

variable {cs ds : List Char}

theorem nil : Level [] := ⟨fun _ => rfl, List.not_mem_nil⟩

theorem append (h : Level cs) (h' : Level ds) : Level (cs ++ ds) := by
  refine ⟨fun n => ?_, fun hmem => ?_⟩
  · rw [Reader.read?_append, h.read]
    exact h'.read n
  · rcases List.mem_append.mp hmem with hmem | hmem
    · exact h.oneLine hmem
    · exact h'.oneLine hmem

theorem of_isPlain (h : isPlain cs = true) : Level cs := by
  induction cs with
  | nil => exact nil
  | cons c cs ih =>
    simp only [isPlain, isDelimiter, List.all_cons, Bool.and_eq_true, Bool.not_eq_true',
      Bool.or_eq_false_iff, decide_eq_false_iff_not] at h
    obtain ⟨⟨⟨⟨hquote, hopen⟩, hclose⟩, hline⟩, hcs⟩ := h
    have hrest := ih hcs
    refine ⟨fun n => ?_, ?_⟩
    · simp only [Reader.read?, Reader.step?, hquote, hopen, hclose, if_false, Option.bind_some]
      exact hrest.read n
    · simp only [List.mem_cons, not_or]
      exact ⟨fun h => hline h.symm, hrest.oneLine⟩

/-- What stands in braces. -/
theorem braced (h : Level cs) : Level ('\x7b' :: (cs ++ ['\x7d'])) := by
  refine ⟨fun n => ?_, fun hmem => ?_⟩
  · show Reader.read? ⟨.plain, n + 1⟩ (cs ++ ['\x7d']) = _
    rw [Reader.read?_append, h.read]
    rfl
  · rcases List.mem_cons.mp hmem with heq | hmem
    · cases heq
    · rcases List.mem_append.mp hmem with hmem | hmem
      · exact h.oneLine hmem
      · cases List.mem_singleton.mp hmem

theorem intercalate (hsep : Level cs) {parts : List (List Char)} (h : ∀ p ∈ parts, Level p) :
    Level (cs.intercalate parts) := by
  induction parts with
  | nil => exact nil
  | cons p rest ih =>
    have hp := h p List.mem_cons_self
    have hrest := ih fun q hq => h q (List.mem_cons_of_mem _ hq)
    cases rest with
    | nil => simpa using hp
    | cons q rest =>
      rw [List.intercalate_cons_cons]
      exact (hp.append hsep).append hrest

end Level

/-! ## 2. Quoted texts -/

theorem isPlain_iff {cs : List Char} : isPlain cs = true ↔ ∀ c ∈ cs, isDelimiter c = false := by
  simp [isPlain]

theorem isPlain_append {cs ds : List Char} :
    isPlain (cs ++ ds) = true ↔ isPlain cs = true ∧ isPlain ds = true := by
  simp [isPlain]

theorem isPlain_cons {c : Char} {cs : List Char} :
    isPlain (c :: cs) = true ↔ isDelimiter c = false ∧ isPlain cs = true := by
  simp [isPlain]

theorem isPlain_of_subset {cs ds : List Char} (hcs : isPlain cs = true) (h : ds ⊆ cs) :
    isPlain ds = true :=
  isPlain_iff.mpr fun c hc => isPlain_iff.mp hcs c (h hc)

/-- The digits of a number are plain, and none is a backslash. -/
theorem isPlain_toDigits {base : Nat} (h : 1 < base) (h' : base ≤ 16) (n : Nat) :
    isPlain (Nat.toDigits base n) = true ∧ '\\' ∉ Nat.toDigits base n := by
  have hdigit : ∀ d < 16, isPlain [Nat.digitChar d] = true ∧ Nat.digitChar d ≠ '\\' := by decide
  induction n using Nat.strongRecOn with
  | ind n ih =>
    by_cases hlt : n < base
    · obtain ⟨hplain, hne⟩ := hdigit n (by omega)
      rw [Nat.toDigits_of_lt_base hlt]
      exact ⟨hplain, by simp [hne.symm]⟩
    · have hmod := Nat.mod_lt n (show 0 < base by omega)
      obtain ⟨hplain, hne⟩ := hdigit (n % base) (by omega)
      obtain ⟨hrest, hno⟩ := ih (n / base) (Nat.div_lt_self (by omega) h)
      rw [Nat.toDigits_of_base_le h (by omega)]
      exact ⟨isPlain_append.mpr ⟨hrest, hplain⟩, by simp [hno, hne.symm]⟩

/-- **What stands for a character in a quoted text**: an escape, its code point, or itself. -/
theorem quoteChar_cases (c : Char) :
    (∃ x, x ≠ '\n' ∧ Text.quoteChar c = ['\\', x]) ∨
    Text.quoteChar c = '\\' :: 'u' :: '\x7b' :: (Nat.toDigits 16 c.toNat ++ ['\x7d']) ∨
    (c ≠ '"' ∧ c ≠ '\\' ∧ c ≠ '\n') ∧ Text.quoteChar c = [c] := by
  unfold Text.quoteChar
  split_ifs with hnull htab hreturn hline hslash hquote
  · exact .inl ⟨'0', by decide, rfl⟩
  · exact .inl ⟨'t', by decide, rfl⟩
  · exact .inl ⟨'r', by decide, rfl⟩
  · exact .inl ⟨'n', by decide, rfl⟩
  · exact .inl ⟨'\\', by decide, rfl⟩
  · exact .inl ⟨'"', by decide, rfl⟩
  · exact .inr (.inl rfl)
  · exact .inr (.inr ⟨⟨hquote, hslash, hline⟩, rfl⟩)

/-- Behind a quote, what is neither a quote nor a backslash is passed over. -/
theorem Reader.read?_quoted {cs : List Char} (hquote : '"' ∉ cs) (hslash : '\\' ∉ cs) (n : Nat) :
    read? ⟨.quoted, n⟩ cs = some ⟨.quoted, n⟩ := by
  induction cs with
  | nil => rfl
  | cons c cs ih =>
    simp only [List.mem_cons, not_or] at hquote hslash
    simp only [read?, step?, Ne.symm hquote.1, Ne.symm hslash.1, if_false, Option.bind_some]
    exact ih hquote.2 hslash.2

/-- **What stands for a character** neither ends the text nor the line. -/
theorem read?_quoteChar (c : Char) (n : Nat) :
    Reader.read? ⟨.quoted, n⟩ (Text.quoteChar c) = some ⟨.quoted, n⟩ ∧
      '\n' ∉ Text.quoteChar c := by
  rcases quoteChar_cases c with ⟨x, hx, heq⟩ | heq | ⟨⟨hquote, hslash, hline⟩, heq⟩
  · rw [heq]
    exact ⟨rfl, by simpa using hx.symm⟩
  · obtain ⟨hplain, hslash⟩ := isPlain_toDigits (by decide) (Nat.le_refl 16) c.toNat
    have hno (x : Char) (hx : isDelimiter x = true) : x ∉ Nat.toDigits 16 c.toNat := by
      intro hmem
      cases hx.symm.trans (isPlain_iff.mp hplain x hmem)
    rw [heq]
    constructor
    · show Reader.read? ⟨.quoted, n⟩ ('\x7b' :: (Nat.toDigits 16 c.toNat ++ ['\x7d'])) = _
      exact Reader.read?_quoted (by simp [hno '"' rfl]) (by simp [hslash]) n
    · simp [hno '\n' rfl]
  · rw [heq]
    refine ⟨Reader.read?_quoted ?_ ?_ n, ?_⟩
    · simpa using Ne.symm hquote
    · simpa using Ne.symm hslash
    · simpa using Ne.symm hline

/-- **A quoted text is closed**, whatever characters are in it. -/
theorem level_quoted (s : String) : Level (Text.quoted s).toList := by
  have hinner (cs : List Char) (n : Nat) :
      Reader.read? ⟨.quoted, n⟩ (cs.flatMap Text.quoteChar) = some ⟨.quoted, n⟩ := by
    induction cs with
    | nil => rfl
    | cons c cs ih =>
      rw [List.flatMap_cons, Reader.read?_append, (read?_quoteChar c n).1]
      exact ih
  rw [Text.quoted, String.toList_ofList, Text.quotedChars]
  refine ⟨fun n => ?_, fun hmem => ?_⟩
  · show Reader.read? ⟨.quoted, n⟩ (s.toList.flatMap Text.quoteChar ++ ['"']) = _
    rw [Reader.read?_append, hinner]
    rfl
  · simp only [List.mem_cons, List.mem_append, List.mem_flatMap] at hmem
    rcases hmem with heq | ⟨c, -, hmem⟩ | heq
    · cases heq
    · exact (read?_quoteChar c 0).2 hmem
    · simp at heq

/-! ## 3. Numbers -/

theorem isPlain_decimal (n : Nat) : isPlain (Nat.toDigits 10 n) = true :=
  (isPlain_toDigits (by decide) (by decide) n).1

theorem isPlain_toString (n : Nat) : isPlain (toString n).toList = true := by
  show isPlain n.repr.toList = true
  rw [Nat.toList_repr]
  exact isPlain_decimal n

theorem isPlain_significant (d : Number.Decimal) : isPlain d.significant.1 = true := by
  refine isPlain_of_subset (isPlain_decimal d.digits) fun c hc => ?_
  exact List.mem_reverse.mp ((List.dropWhile_sublist _).subset (List.mem_reverse.mp hc))

theorem isPlain_positionalText {digits : List Char} (h : isPlain digits = true) (pointZero : Bool)
    (place : Int) : isPlain (Number.positionalText pointZero digits place) = true := by
  have hzeros (n : Nat) : isPlain (List.replicate n '0') = true := by
    refine isPlain_of_subset (show isPlain ['0'] = true from rfl) fun c hc => ?_
    rw [List.eq_of_mem_replicate hc]
    exact List.mem_singleton_self _
  unfold Number.positionalText
  split_ifs
  · exact isPlain_append.mpr ⟨hzeros _, h⟩
  · refine isPlain_append.mpr ⟨isPlain_of_subset h (List.take_subset _ _), ?_⟩
    exact isPlain_cons.mpr ⟨rfl, isPlain_of_subset h (List.drop_subset _ _)⟩
  · exact isPlain_append.mpr ⟨isPlain_append.mpr ⟨h, hzeros _⟩, rfl⟩
  · exact isPlain_append.mpr ⟨isPlain_append.mpr ⟨h, hzeros _⟩, rfl⟩

theorem isPlain_exponentText {digits : List Char} (h : isPlain digits = true) {plus : String}
    (hplus : isPlain plus.toList = true) (place : Int) :
    isPlain (Number.exponentText plus digits place) = true := by
  unfold Number.exponentText
  refine isPlain_append.mpr ⟨?_, isPlain_cons.mpr ⟨rfl, ?_⟩⟩
  · split
    · rfl
    · exact h
    · next d ds _ =>
      obtain ⟨hd, hds⟩ := isPlain_cons.mp h
      exact isPlain_cons.mpr ⟨hd, isPlain_cons.mpr ⟨rfl, hds⟩⟩
  · split
    · exact isPlain_cons.mpr ⟨rfl, isPlain_decimal _⟩
    · exact isPlain_append.mpr ⟨hplus, isPlain_decimal _⟩

/-- Whether the texts of a layout are plain. -/
def isPlainLayout (l : Number.Layout) : Bool :=
  [l.plus, l.nan, l.infinity, l.zero, l.negativeZero].all fun s => isPlain s.toList

/-- **The text of a number is plain.** -/
theorem isPlain_text {l : Number.Layout} (h : isPlainLayout l = true) (x : Float) :
    isPlain (l.text x).toList = true := by
  simp only [isPlainLayout, List.all_cons, List.all_nil, Bool.and_true, Bool.and_eq_true] at h
  obtain ⟨hplus, hnan, hinfinity, hzero, hnegative⟩ := h
  unfold Number.Layout.text
  cases Number.view x with
  | nan => exact hnan
  | infinite negative =>
    rw [String.toList_append]
    cases negative with
    | false => exact hinfinity
    | true => exact isPlain_append.mpr ⟨rfl, hinfinity⟩
  | finite negative units =>
    dsimp only
    split
    · cases negative with
      | false => exact hzero
      | true => exact hnegative
    · rw [String.toList_ofList]
      have hdigits := isPlain_significant
        (Number.shortest l.tie units (Number.signed negative x))
      generalize (Number.shortest l.tie units (Number.signed negative x)).significant = shown at *
      have hbody : isPlain (if l.positional shown.2 then
          Number.positionalText l.pointZero shown.1 shown.2
          else Number.exponentText l.plus shown.1 shown.2) = true := by
        split
        · exact isPlain_positionalText hdigits _ _
        · exact isPlain_exponentText hdigits hplus _
      cases negative with
      | false => exact hbody
      | true => exact isPlain_cons.mpr ⟨rfl, hbody⟩

/-! ## 4. Expressions -/

theorem level_append {a b : String} (ha : Level a.toList) (hb : Level b.toList) :
    Level (a ++ b).toList := by
  rw [String.toList_append]
  exact ha.append hb

/-- A plain name with what stands in parentheses behind it. -/
theorem level_apply {name : String} {args : List String} (hname : isPlain name.toList = true)
    (hargs : ∀ a ∈ args, Level a.toList) : Level (apply name args).toList := by
  have hinner : Level (String.intercalate ", " args).toList := by
    rw [String.toList_intercalate]
    refine .intercalate (.of_isPlain rfl) fun p hp => ?_
    obtain ⟨a, ha, rfl⟩ := List.mem_map.mp hp
    exact hargs a ha
  exact level_append (level_append (level_append (.of_isPlain hname) (.of_isPlain rfl)) hinner)
    (.of_isPlain rfl)

/-- A plain name with fields in braces behind it, under plain names too. -/
theorem level_record {name : String} {fields : List (String × String)}
    (hname : isPlain name.toList = true)
    (hfields : ∀ f ∈ fields, isPlain f.1.toList = true ∧ Level f.2.toList) :
    Level (record name fields).toList := by
  simp only [record, String.toList_append, String.toList_intercalate, List.map_map]
  have hinner : Level ((", ".toList).intercalate (fields.map (String.toList ∘ field))) := by
    refine .intercalate (.of_isPlain rfl) fun p hp => ?_
    obtain ⟨f, hf, rfl⟩ := List.mem_map.mp hp
    obtain ⟨hkey, hvalue⟩ := hfields f hf
    simp only [Function.comp_apply, field, String.toList_append]
    exact ((Level.of_isPlain hkey).append (.of_isPlain rfl)).append hvalue
  have hblank : Level [' '] := .of_isPlain rfl
  have heq : name.toList ++ " \x7b ".toList ++
      (", ".toList).intercalate (fields.map (String.toList ∘ field)) ++ " \x7d".toList =
      name.toList ++ [' '] ++ ('\x7b' :: ([' '] ++
        (", ".toList).intercalate (fields.map (String.toList ∘ field)) ++ [' '] ++ ['\x7d'])) := by
    show name.toList ++ [' ', '\x7b', ' '] ++ _ ++ [' ', '\x7d'] = _
    simp
  rw [heq]
  exact ((Level.of_isPlain hname).append hblank).append ((hblank.append hinner).append hblank).braced

attribute [simp] level_quoted

@[simp] theorem level_toDigits (n : Nat) : Level (Nat.toDigits 10 n) :=
  .of_isPlain (isPlain_decimal n)

@[simp] theorem level_ofBool (b : Bool) : Level (ofBool b).toList := by
  cases b <;> exact .of_isPlain rfl

end Listing

open Listing

/-! The names of all that a listing names are plain. -/

theorem Register.isPlain_name (r : Register) : isPlain r.name.toList = true := by
  cases r <;> rfl

theorem Arithmetic.isPlain_name (op : Arithmetic) : isPlain op.name.toList = true := by
  cases op <;> rfl

theorem Relation.isPlain_name (op : Relation) : isPlain op.name.toList = true := by
  cases op <;> rfl

theorem Slot.isPlain_name (s : Slot) : isPlain s.name.toList = true := by
  cases s <;> rfl

theorem MathFn.isPlain_text (f : MathFn) : isPlain (Menu.text f).toList = true := by
  cases f <;> rfl

theorem MathFn.isPlain_name (f : MathFn) : isPlain (Menu.name f).toList = true := by
  cases f <;> rfl

theorem CurrentUnit.isPlain_name (u : CurrentUnit) : isPlain (Menu.name u).toList = true := by
  cases u <;> rfl

theorem Effect.isPlain_name (e : Effect) : isPlain (Menu.name e).toList = true := by
  cases e <;> rfl

theorem RotationStyle.isPlain_name (s : RotationStyle) : isPlain (Menu.name s).toList = true := by
  cases s <;> rfl

@[simp] theorem Storage.level_brief (s : Storage) : Level s.brief.toList := by
  unfold Storage.brief
  cases s.owner with
  | target => exact level_quoted _
  | stage => exact level_append (.of_isPlain rfl) (level_quoted _)

@[simp] theorem Storage.level_full (s : Storage) : Level s.full.toList := by
  have howner : Level s.owner.name.toList := by
    cases s.owner <;> exact .of_isPlain rfl
  exact level_record (by decide) (by simp +decide [howner])

@[simp] theorem Sensor.level_name (s : Sensor) : Level s.name.toList := by
  cases s with
  | current unit => exact level_apply (by decide) (by simp [Level.of_isPlain unit.isPlain_name])
  | _ => exact .of_isPlain rfl

@[simp] theorem Value.level_brief (v : Value) : Level v.brief.toList := by
  cases v with
  | number n => exact .of_isPlain (Listing.isPlain_text rfl n)
  | text s => exact level_quoted s
  | boolean b => exact level_ofBool b

@[simp] theorem Value.level_full (v : Value) : Level v.full.toList := by
  cases v with
  | number n =>
    have htext : Level (Number.listed.text n).toList := .of_isPlain (Listing.isPlain_text rfl n)
    exact level_apply (by decide) (by simp [htext])
  | text s => exact level_apply (by decide) (by simp)
  | boolean b => exact level_apply (by decide) (by simp)

namespace Expr

/-- **An expression as a formula is level.** -/
@[simp] theorem level_brief (e : Expr) : Level e.brief.toList := by
  induction e with
  | const v => exact v.level_brief
  | «variable» | argument | listLength | listContents | sense =>
    exact level_apply (by decide) (by simp)
  | listItem _ _ ih | listIndexOf _ _ ih | listContains _ _ ih | not _ ih | round _ ih
  | length _ ih | keyPressed _ ih | touching _ ih | «attribute» _ _ ih =>
    exact level_apply (by decide) (by simp [ih])
  | register r => exact level_append (.of_isPlain rfl) (.of_isPlain r.isPlain_name)
  | now | groupRunning | ticketPending => exact .of_isPlain rfl
  | binary op _ _ iha ihb => exact level_apply op.isPlain_name (by simp [iha, ihb])
  | compare op _ _ iha ihb => exact level_apply op.isPlain_name (by simp [iha, ihb])
  | and _ _ iha ihb | or _ _ iha ihb =>
    exact level_append (level_append (level_append (level_append (.of_isPlain rfl) iha)
      (.of_isPlain rfl)) ihb) (.of_isPlain rfl)
  | math f _ ih => exact level_apply f.isPlain_text (by simp [ih])
  | join _ _ iha ihb | letterOf _ _ iha ihb | contains _ _ iha ihb | random _ _ iha ihb =>
    exact level_apply (by decide) (by simp [iha, ihb])
  | cast ty _ ih => exact level_apply ty.isPlain_name (by simp [ih])

/-- **An expression part by part is level.** -/
@[simp] theorem level_full (e : Expr) : Level e.full.toList := by
  induction e with
  | const | «variable» | argument | listLength | listContents | sense =>
    exact level_apply (by decide) (by simp)
  | register r => exact level_apply (by decide) (by simp [Level.of_isPlain r.isPlain_name])
  | now | groupRunning | ticketPending => exact .of_isPlain rfl
  | listItem _ _ ih | listIndexOf _ _ ih | listContains _ _ ih | «attribute» _ _ ih =>
    exact level_record (by decide) (by simp +decide [ih])
  | not _ ih | round _ ih | length _ ih | keyPressed _ ih | touching _ ih =>
    exact level_apply (by decide) (by simp [ih])
  | binary op _ _ iha ihb =>
    exact level_record (by decide) (by simp +decide [iha, ihb, Level.of_isPlain op.isPlain_name])
  | compare op _ _ iha ihb =>
    exact level_record (by decide) (by simp +decide [iha, ihb, Level.of_isPlain op.isPlain_name])
  | and _ _ iha ihb | or _ _ iha ihb | join _ _ iha ihb =>
    exact level_apply (by decide) (by simp [iha, ihb])
  | math f _ ih =>
    exact level_record (by decide) (by simp +decide [ih, Level.of_isPlain f.isPlain_name])
  | letterOf _ _ iha ihb | contains _ _ iha ihb | random _ _ iha ihb =>
    exact level_record (by decide) (by simp +decide [iha, ihb])
  | cast ty _ ih => exact level_apply (by decide) (by simp [ih, Level.of_isPlain ty.isPlain_name])

end Expr

/-! ## 5. Statements in one line -/

@[simp] theorem ListOp.level_full (op : ListOp) : Level op.full.toList := by
  cases op with
  | deleteAll => exact level_apply (by decide) (by simp)
  | add | delete | insert | replace => exact level_record (by decide) (by simp +decide)

@[simp] theorem MotionOp.level_full (op : MotionOp) : Level op.full.toList := by
  cases op with
  | glideStep | bounce => exact .of_isPlain rfl
  | gotoXY => exact level_record (by decide) (by simp +decide)
  | setRotationStyle s => exact level_apply (by decide) (by simp [Level.of_isPlain s.isPlain_name])
  | move | turn | gotoTarget | setX | setY | changeX | changeY | pointIn | pointTowards =>
    exact level_apply (by decide) (by simp)

@[simp] theorem LooksOp.level_full (op : LooksOp) : Level op.full.toList := by
  cases op with
  | nextCostume | clearEffects | «show» | hide => exact .of_isPlain rfl
  | say => exact level_record (by decide) (by simp +decide)
  | setEffect f | changeEffect f =>
    exact level_record (by decide) (by simp +decide [Level.of_isPlain f.isPlain_name])
  | switchCostume | setSize | changeSize | goToFront | changeLayer =>
    exact level_apply (by decide) (by simp)

@[simp] theorem SoundOp.level_full (op : SoundOp) : Level op.full.toList := by
  cases op with
  | stopAll => exact .of_isPlain rfl
  | play | playUntilDone | setVolume | changeVolume => exact level_apply (by decide) (by simp)

@[simp] theorem PenOp.level_full (op : PenOp) : Level op.full.toList := by
  cases op with
  | clear | stamp | down | up => exact .of_isPlain rfl
  | setColor | setSize | changeSize => exact level_apply (by decide) (by simp)

theorem Label.isPlain_show (l : Label) : isPlain l.show.toList = true := by
  rw [Label.show, String.toList_append]
  exact isPlain_append.mpr ⟨rfl, isPlain_toString l⟩

theorem ProcId.isPlain_show (p : ProcId) : isPlain p.show.toList = true := by
  rw [ProcId.show, String.toList_append]
  exact isPlain_append.mpr ⟨rfl, isPlain_toString p⟩

namespace Listing

theorem isPlain_waiting (wait : Bool) : isPlain (waiting wait).toList = true := by
  cases wait <;> rfl

/-- **The line of a statement without a body is level.** -/
theorem level_simple (s : Stmt) : Level (simple s).toList := by
  cases s with
  | save | restore | «return» | endCall | collectAnswer | resetTimer | deleteClone | stopAll
  | stopOthers | branch | «repeat» | «while» | forever => exact .of_isPlain rfl
  | label l => exact level_append (.of_isPlain l.isPlain_show) (.of_isPlain rfl)
  | queue l | forceQueue l => exact level_append (.of_isPlain rfl) (.of_isPlain l.isPlain_show)
  | setRegister r e =>
    exact level_append (level_append (level_append (.of_isPlain rfl) (.of_isPlain r.isPlain_name))
      (.of_isPlain rfl)) e.level_brief
  | call p args l =>
    have happly : Level (apply p.show (args.map Expr.brief)).toList := by
      refine level_apply p.isPlain_show fun a ha => ?_
      obtain ⟨e, -, rfl⟩ := List.mem_map.mp ha
      exact e.level_brief
    exact level_append (level_append (level_append (.of_isPlain rfl) happly) (.of_isPlain rfl))
      (.of_isPlain l.isPlain_show)
  | broadcast e wait | switchBackdrop e wait =>
    exact level_append (level_append (level_append (.of_isPlain rfl)
      (.of_isPlain (isPlain_waiting wait))) (.of_isPlain rfl)) e.level_brief
  | setVariable s e | changeVariable s e =>
    exact level_append (level_append (level_append (.of_isPlain rfl) s.level_brief)
      (.of_isPlain rfl)) e.level_brief
  | list op | motion op | looks op | sound op | pen op =>
    exact level_append (.of_isPlain rfl) op.level_full
  | ask e | createClone e => exact level_append (.of_isPlain rfl) e.level_brief

/-! ## 6. Lines -/

/-- What a line of a listing shows. -/
inductive Row
  /-- A statement, or its beginning if it has bodies. -/
  | statement (s : Stmt)
  /-- The end of one body of a branch and the beginning of the other. -/
  | otherwise
  /-- The end of the last body of a statement. -/
  | close

mutual

/-- The lines that a statement should have, each with the number of bodies around it. -/
def outlineOf (depth : Nat) : Stmt → List (Nat × Row)
  | .branch c yes no =>
    (depth, .statement (.branch c yes no)) :: (outline (depth + 1) yes ++
      ((if no.isEmpty then [] else (depth, .otherwise) :: outline (depth + 1) no) ++
        [(depth, .close)]))
  | .repeat e b =>
    (depth, .statement (.repeat e b)) :: (outline (depth + 1) b ++ [(depth, .close)])
  | .while e b => (depth, .statement (.while e b)) :: (outline (depth + 1) b ++ [(depth, .close)])
  | .forever b => (depth, .statement (.forever b)) :: (outline (depth + 1) b ++ [(depth, .close)])
  | s => [(depth, .statement s)]

/-- The lines that a list of statements should have. -/
def outline (depth : Nat) : List Stmt → List (Nat × Row)
  | [] => []
  | s :: rest => outlineOf depth s ++ outline depth rest

end

/-- The statement that a line shows or begins. -/
def Row.statement? : Row → Option Stmt
  | .statement s => some s
  | _ => none

@[simp] theorem Row.statement?_statement (s : Stmt) : (Row.statement s).statement? = some s := rfl

@[simp] theorem Row.statement?_otherwise : Row.otherwise.statement? = none := rfl

@[simp] theorem Row.statement?_close : Row.close.statement? = none := rfl

/-- What is in a line behind its blanks. A line that opens a body ends with its brace. -/
def Row.Shows : Row → List Char → Prop
  | .statement s, text =>
    if s.isLeaf then Level text else ∃ first, text = first ++ ['\x7b'] ∧ Level first
  | .otherwise, text => text = "\x7d else \x7b".toList
  | .close, text => text = ['\x7d']

/-- A line that is indented as it should be, by two blanks for each body around it. -/
def Fits (r : Nat × Row) (line : List Char) : Prop :=
  ∃ c text, line = List.replicate (2 * r.1) ' ' ++ c :: text ∧ c ≠ ' ' ∧ r.2.Shows (c :: text)

/-- A text that consists of such lines. -/
def Written (rs : List (Nat × Row)) (cs : List Char) : Prop :=
  ∃ lines, cs = lines.flatMap (· ++ ['\n']) ∧ List.Forall₂ Fits rs lines

namespace Written

variable {r : Nat × Row} {rs rs' : List (Nat × Row)} {cs cs' : List Char}

theorem nil : Written [] [] := ⟨[], rfl, .nil⟩

theorem append (h : Written rs cs) (h' : Written rs' cs') : Written (rs ++ rs') (cs ++ cs') := by
  obtain ⟨lines, rfl, hfits⟩ := h
  obtain ⟨lines', rfl, hfits'⟩ := h'
  exact ⟨lines ++ lines', List.flatMap_append.symm, List.rel_append hfits hfits'⟩

theorem line {line : List Char} (h : Fits r line) : Written [r] (line ++ ['\n']) :=
  ⟨[line], by simp, .cons h .nil⟩

end Written

/-- Whether a text begins with something other than a blank. -/
def isFlush (s : String) : Bool := s.toList.head?.any (· ≠ ' ')

theorem isFlush_append {a b : String} (h : isFlush a = true) : isFlush (a ++ b) = true := by
  unfold isFlush at h ⊢
  rw [String.toList_append]
  cases ha : a.toList with
  | nil =>
    rw [ha] at h
    cases h
  | cons c cs =>
    rw [ha] at h
    exact h

theorem isFlush_simple {s : Stmt} (h : s.isLeaf = true) : isFlush (simple s) = true := by
  cases s with
  | branch | «repeat» | «while» | forever => cases h
  | save | restore | «return» | endCall | collectAnswer | resetTimer | deleteClone | stopAll
  | stopOthers => rfl
  | label => exact isFlush_append (isFlush_append rfl)
  | queue | forceQueue | list | motion | looks | sound | pen | ask | createClone =>
    exact isFlush_append rfl
  | setRegister | call | broadcast | switchBackdrop | setVariable | changeVariable =>
    exact isFlush_append (isFlush_append (isFlush_append rfl))

/-- A line that begins with the blanks that it should. -/
theorem written_row {row : Row} {text : String} (hflush : isFlush text = true)
    (hshows : row.Shows text.toList) (depth : Nat) :
    Written [(depth, row)] (indent depth ++ text ++ "\n").toList := by
  rw [String.toList_append, String.toList_append, indent, String.toList_ofList]
  unfold isFlush at hflush
  cases htext : text.toList with
  | nil =>
    rw [htext] at hflush
    cases hflush
  | cons c cs =>
    rw [htext] at hflush hshows
    exact .line ⟨c, cs, rfl, by simpa using hflush, hshows⟩

/-- The line of a statement without a body. -/
theorem written_leaf {s : Stmt} (h : s.isLeaf = true) (depth : Nat) :
    Written [(depth, .statement s)] (indent depth ++ simple s ++ "\n").toList := by
  refine written_row (isFlush_simple h) ?_ depth
  rw [Row.Shows, if_pos h]
  exact level_simple s

/-- The line that begins a statement with a body. -/
theorem written_open {s : Stmt} (h : s.isLeaf = false) (depth : Nat) {first : String}
    (hflush : isFlush first = true) (hlevel : Level first.toList) :
    Written [(depth, .statement s)] (indent depth ++ first ++ "\x7b\n").toList := by
  have hshows : (Row.statement s).Shows (first ++ "\x7b").toList := by
    rw [Row.Shows, if_neg (by simp [h])]
    exact ⟨first.toList, String.toList_append, hlevel⟩
  simpa [String.toList_append] using written_row (isFlush_append hflush) hshows depth

theorem written_otherwise (depth : Nat) :
    Written [(depth, .otherwise)] (indent depth ++ "\x7d" ++ " else " ++ "\x7b\n").toList := by
  simpa [String.toList_append] using @written_row .otherwise "\x7d else \x7b" rfl rfl depth

theorem written_close (depth : Nat) :
    Written [(depth, .close)] (indent depth ++ "\x7d" ++ "\n").toList :=
  @written_row .close "\x7d" rfl rfl depth

/-- The lines of a statement with one body. -/
theorem written_body {s : Stmt} (h : s.isLeaf = false) {depth : Nat} {first : String}
    (hflush : isFlush first = true) (hlevel : Level first.toList) {body : List Stmt}
    (hbody : Written (outline (depth + 1) body) (lines (depth + 1) body).toList) :
    Written ((depth, .statement s) :: (outline (depth + 1) body ++ [(depth, .close)]))
      (indent depth ++ first ++ braces depth (lines (depth + 1) body) ++ "\n").toList := by
  have hall := (written_open h depth hflush hlevel).append (hbody.append (written_close depth))
  simpa [braces, String.toList_append] using hall

/-- The lines of a branch. -/
theorem written_branch {c : Expr} {yes no : List Stmt} {depth : Nat}
    (hyes : Written (outline (depth + 1) yes) (lines (depth + 1) yes).toList)
    (hno : Written (outline (depth + 1) no) (lines (depth + 1) no).toList) :
    Written (outlineOf depth (.branch c yes no)) (stmt depth (.branch c yes no)).toList := by
  have hfirst : Level ("if " ++ c.brief ++ " ").toList :=
    level_append (level_append (.of_isPlain rfl) c.level_brief) (.of_isPlain rfl)
  have hopen : Written [(depth, .statement (.branch c yes no))]
      (indent depth ++ ("if " ++ c.brief ++ " ") ++ "\x7b\n").toList :=
    written_open rfl depth (isFlush_append (isFlush_append rfl)) hfirst
  show Written ((depth, .statement (.branch c yes no)) :: (outline (depth + 1) yes ++
    ((if no.isEmpty then [] else (depth, .otherwise) :: outline (depth + 1) no) ++
      [(depth, .close)]))) (indent depth ++ "if " ++ c.brief ++ " " ++
    braces depth (lines (depth + 1) yes) ++
    (if no.isEmpty then "" else " else " ++ braces depth (lines (depth + 1) no)) ++ "\n").toList
  cases hempty : no.isEmpty with
  | true =>
    have hall := hopen.append (hyes.append (written_close depth))
    simpa [braces, String.toList_append] using hall
  | false =>
    have hall := hopen.append (hyes.append
      (((written_otherwise depth).append hno).append (written_close depth)))
    simpa [braces, String.toList_append] using hall

theorem outlineOf_leaf {s : Stmt} (h : s.isLeaf = true) (depth : Nat) :
    outlineOf depth s = [(depth, .statement s)] := by
  cases s <;> first | rfl | cases h

theorem stmt_leaf {s : Stmt} (h : s.isLeaf = true) (depth : Nat) :
    stmt depth s = indent depth ++ simple s ++ "\n" := by
  cases s <;> first | rfl | cases h

/-- **The lines of a script are those that it should have.** -/
theorem written_lines (script : List Stmt) :
    ∀ depth, Written (outline depth script) (lines depth script).toList := by
  have hloop {word : String} (hflush : isFlush word = true) (hplain : isPlain word.toList = true)
      (e : Expr) : isFlush (word ++ e.brief ++ " ") = true ∧
        Level (word ++ e.brief ++ " ").toList :=
    ⟨isFlush_append (isFlush_append hflush),
      level_append (level_append (.of_isPlain hplain) e.level_brief) (.of_isPlain rfl)⟩
  revert script
  apply @Stmt.induction
    (fun s => ∀ depth, Written (outlineOf depth s) (stmt depth s).toList)
    (fun script => ∀ depth, Written (outline depth script) (lines depth script).toList)
  case leaf =>
    intro s hs depth
    rw [outlineOf_leaf hs, stmt_leaf hs]
    exact written_leaf hs depth
  case branch =>
    intro c yes no hyes hno depth
    exact written_branch (hyes _) (hno _)
  case «repeat» =>
    intro e b hb depth
    obtain ⟨hflush, hlevel⟩ := hloop (show isFlush "repeat " = true from rfl) rfl e
    have hall : Written (outlineOf depth (.repeat e b)) _ := written_body rfl hflush hlevel (hb _)
    simpa [stmt, String.append_assoc] using hall
  case «while» =>
    intro e b hb depth
    obtain ⟨hflush, hlevel⟩ := hloop (show isFlush "while " = true from rfl) rfl e
    have hall : Written (outlineOf depth (.while e b)) _ := written_body rfl hflush hlevel (hb _)
    simpa [stmt, String.append_assoc] using hall
  case forever =>
    intro b hb depth
    exact written_body rfl rfl (.of_isPlain rfl) (hb _)
  case nil =>
    intro depth
    exact .nil
  case cons =>
    intro s rest hs hrest depth
    show Written (outlineOf depth s ++ outline depth rest)
      (stmt depth s ++ lines depth rest).toList
    rw [String.toList_append]
    exact (hs depth).append (hrest depth)

/-! ## 7. Reading a listing -/

/-- The braces that are open before a line. -/
def before : Nat × Row → Nat
  | (depth, .statement _) => depth
  | (depth, .otherwise) => depth + 1
  | (depth, .close) => depth + 1

/-- The braces that are open behind a line. -/
def behind : Nat × Row → Nat
  | (depth, .statement s) => if s.isLeaf then depth else depth + 1
  | (depth, .otherwise) => depth + 1
  | (depth, .close) => depth

/-- One line begins with as many open braces as the line before it leaves, from some number of them
    to another. -/
def Follows : Nat → List (Nat × Row) → Nat → Prop
  | n, [], k => n = k
  | n, r :: rest, k => n = before r ∧ Follows (behind r) rest k

namespace Follows

theorem append {n k l : Nat} {rs rs' : List (Nat × Row)} (h : Follows n rs k)
    (h' : Follows k rs' l) : Follows n (rs ++ rs') l := by
  induction rs generalizing n with
  | nil =>
    cases h
    exact h'
  | cons r rest ih => exact ⟨h.1, ih h.2⟩

theorem take {n k i : Nat} {rs : List (Nat × Row)} (h : Follows n rs k) {r : Nat × Row}
    (hr : rs[i]? = some r) : Follows n (rs.take i) (before r) := by
  induction rs generalizing n i with
  | nil => cases hr
  | cons r' rest ih =>
    cases i with
    | zero =>
      cases hr
      exact h.1
    | succ i => exact ⟨h.1, ih h.2 hr⟩

end Follows

/-- **Each body is closed** where the statement that it belongs to ends. -/
theorem follows_outline (script : List Stmt) :
    ∀ depth, Follows depth (outline depth script) depth := by
  have hbody {s : Stmt} (hs : s.isLeaf = false) {depth : Nat} {rs : List (Nat × Row)}
      (h : Follows (depth + 1) rs depth) : Follows depth ((depth, .statement s) :: rs) depth := by
    refine ⟨rfl, ?_⟩
    rw [behind, if_neg (by simp [hs])]
    exact h
  have hclose (depth : Nat) : Follows (depth + 1) [(depth, .close)] depth := ⟨rfl, rfl⟩
  revert script
  apply @Stmt.induction
    (fun s => ∀ depth, Follows depth (outlineOf depth s) depth)
    (fun script => ∀ depth, Follows depth (outline depth script) depth)
  case leaf =>
    intro s hs depth
    rw [outlineOf_leaf hs]
    refine ⟨rfl, ?_⟩
    rw [behind, if_pos hs]
    rfl
  case branch =>
    intro c yes no hyes hno depth
    refine hbody rfl ((hyes _).append ?_)
    cases no.isEmpty with
    | true => exact hclose depth
    | false => exact ⟨rfl, (hno _).append (hclose depth)⟩
  case «repeat» | «while» => exact fun _ _ hb depth => hbody rfl ((hb _).append (hclose depth))
  case forever => exact fun _ hb depth => hbody rfl ((hb _).append (hclose depth))
  case nil => exact fun _ => rfl
  case cons => exact fun _ _ hs hrest depth => (hs depth).append (hrest depth)

/-- **Every statement has a line**, in the order of the script. -/
theorem statements_outline (script : List Stmt) :
    ∀ depth, (outline depth script).filterMap (fun r => r.2.statement?) = Script.nodes script := by
  apply @Stmt.induction
    (fun s => ∀ depth,
      (outlineOf depth s).filterMap (fun r => r.2.statement?) = Script.nodesOf s)
    (fun script => ∀ depth,
      (outline depth script).filterMap (fun r => r.2.statement?) = Script.nodes script)
  case leaf =>
    intro s hs depth
    rw [outlineOf_leaf hs, Script.nodesOf_leaf hs]
    rfl
  case branch =>
    intro c yes no hyes hno depth
    cases no with
    | nil => simp [outlineOf, Script.nodesOf, Script.nodes, hyes]
    | cons s rest =>
      have hno := hno (depth + 1)
      simp [outlineOf, Script.nodesOf, List.filterMap_cons, hyes, hno]
  case «repeat» | «while» =>
    intro e b hb depth
    simp [outlineOf, Script.nodesOf, hb]
  case forever =>
    intro b hb depth
    simp [outlineOf, Script.nodesOf, hb]
  case nil => exact fun _ => rfl
  case cons =>
    intro s rest hs hrest depth
    simp [outline, Script.nodes, hs, hrest]

namespace Fits

variable {r : Nat × Row} {line : List Char}

/-- A text behind blanks is read as without them. -/
theorem read?_blanks (k n : Nat) (cs : List Char) :
    Reader.read? ⟨.plain, n⟩ (List.replicate k ' ' ++ cs) = Reader.read? ⟨.plain, n⟩ cs := by
  have hblanks : Level (List.replicate k ' ') := by
    refine .of_isPlain (isPlain_of_subset (show isPlain [' '] = true from rfl) fun c hc => ?_)
    rw [List.eq_of_mem_replicate hc]
    exact List.mem_singleton_self _
  rw [Reader.read?_append, hblanks.read]
  rfl

/-- **What a line opens and closes.** -/
theorem read (h : Fits r line) :
    Reader.read? ⟨.plain, before r⟩ (line ++ ['\n']) = some ⟨.plain, behind r⟩ := by
  obtain ⟨c, text, rfl, -, hshows⟩ := h
  obtain ⟨depth, row⟩ := r
  rw [List.append_assoc, read?_blanks, Reader.read?_append]
  generalize c :: text = text at hshows
  cases row with
  | statement s =>
    unfold Row.Shows at hshows
    unfold before behind
    dsimp only at hshows ⊢
    split at hshows
    · next hleaf =>
      rw [if_pos hleaf, hshows.read]
      rfl
    · next hleaf =>
      obtain ⟨first, rfl, hfirst⟩ := hshows
      rw [if_neg hleaf, Reader.read?_append, hfirst.read]
      rfl
  | otherwise =>
    cases hshows
    rfl
  | close =>
    cases hshows
    rfl

theorem oneLine (h : Fits r line) : '\n' ∉ line := by
  obtain ⟨c, text, rfl, -, hshows⟩ := h
  simp only [List.mem_append, List.mem_replicate, not_or]
  refine ⟨by simp, ?_⟩
  generalize c :: text = text at hshows
  cases hrow : r.2 with
  | statement s =>
    rw [hrow, Row.Shows] at hshows
    split at hshows
    · exact hshows.oneLine
    · obtain ⟨first, rfl, hfirst⟩ := hshows
      simpa using hfirst.oneLine
  | otherwise | close =>
    rw [hrow] at hshows
    cases hshows
    decide

end Fits

theorem oneLine_of_fits {rs : List (Nat × Row)} {lines : List (List Char)}
    (h : List.Forall₂ Fits rs lines) : ∀ line ∈ lines, '\n' ∉ line := by
  induction h with
  | nil => exact fun _ h => (by cases h)
  | cons hfits _ ih => exact List.forall_mem_cons.mpr ⟨hfits.oneLine, ih⟩

/-- A text of such lines is read to its end. -/
theorem read?_lines {rs : List (Nat × Row)} {lines : List (List Char)}
    (h : List.Forall₂ Fits rs lines) {n k : Nat} (hfollows : Follows n rs k) :
    Reader.read? ⟨.plain, n⟩ (lines.flatMap (· ++ ['\n'])) = some ⟨.plain, k⟩ := by
  induction h generalizing n with
  | nil =>
    cases hfollows
    rfl
  | cons hfits _ ih =>
    obtain ⟨rfl, hrest⟩ := hfollows
    rw [List.flatMap_cons, Reader.read?_append, hfits.read]
    exact ih hrest

/-- **Listings are well bracketed.** Whatever texts and names are in a script: a reader that goes
    through its listing from left to right, past quoted texts, finds every quote closed, closes no
    brace that is not open, and has none open in the end. The lines are those of the outline: each
    statement begins one, in order, and a line ends only behind a statement or behind the brace that
    opens a body. Each line begins with two blanks for each body around it and no more, and as many
    braces are open there. -/
theorem listing_bracketed (script : List Stmt) :
    Reader.read? ⟨.plain, 0⟩ (Script.listing script).toList = some ⟨.plain, 0⟩ ∧
    (outline 0 script).filterMap (fun r => r.2.statement?) = Script.nodes script ∧
    ∃ lines, (Script.listing script).toList = lines.flatMap (· ++ ['\n']) ∧
      (∀ line ∈ lines, '\n' ∉ line) ∧ List.Forall₂ Fits (outline 0 script) lines ∧
      ∀ i r, (outline 0 script)[i]? = some r →
        Reader.read? ⟨.plain, 0⟩ ((lines.take i).flatMap (· ++ ['\n'])) =
          some ⟨.plain, before r⟩ := by
  obtain ⟨lines, hlines, hfits⟩ := written_lines script 0
  have hfollows := follows_outline script 0
  have hlisting : (Script.listing script).toList = lines.flatMap (· ++ ['\n']) := hlines
  refine ⟨?_, statements_outline script 0, lines, hlisting, oneLine_of_fits hfits, hfits,
    fun i r hr => read?_lines (List.forall₂_take i hfits) (hfollows.take hr)⟩
  rw [hlisting]
  exact read?_lines hfits hfollows

end Listing

end BlockScript
