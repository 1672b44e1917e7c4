import Mathlib.Data.List.TakeDrop

/-!
# Self-delimiting text

A text archive writes values one after the other, each with a blank in front, and reads them back in
the same order.  `TextCodec α` is one such way to write an `α`: `decode` finds its end by itself and
returns the rest of the text, so codecs of the parts compose to a codec of the whole.  The structure
carries the round trip, and each combinator below discharges it once.

The end of a number is where its digits end, so the text behind a value must not begin with a
digit.  What an archive writes begins with a blank; only the text behind the last value is a matter
of the caller, and of no importance where the value ends with a string.

## Main definitions

* `TextCodec` — an encoder, and a decoder that undoes it in front of a text that `Ends` a number.
* `TextCodec.nat` — a decimal number.
* `TextCodec.string`, `TextCodec.list` — the length first.
* `TextCodec.prod`, `TextCodec.map` — pairs, and values with the same content.
* `TextCodec.Closed` — the end of a value is found in front of any text.
* `TextCodec.Verbatim` — the strings in a value are written as they are.
-/

namespace BlockchainMessaging

/-- A number in front of this text ends where the text begins. -/
def Ends (rest : List Char) : Prop := ∀ x ∈ rest.head?, x.isDigit = false

instance : ∀ rest, Decidable (Ends rest)
  | [] => .isTrue (by simp [Ends])
  | x :: _ => decidable_of_iff (x.isDigit = false) (by simp [Ends])

theorem ends_nil : Ends [] := by simp [Ends]

theorem ends_blank (rest : List Char) : Ends (' ' :: rest) := by
  intro x hx
  cases hx
  decide

/-- A way to write values of a type such that they can be read back. -/
structure TextCodec (α : Type) where
  encode : α → List Char
  /-- The value in front of the text, and the text behind it. -/
  decode : List Char → Option (α × List Char)
  encode_blank : ∀ a, ∃ text, encode a = ' ' :: text
  decode_encode : ∀ a rest, Ends rest → decode (encode a ++ rest) = some (a, rest)

namespace TextCodec

variable {α β : Type}

/-- A number can stand in front of the value. -/
theorem ends_encode (c : TextCodec α) (a : α) (rest : List Char) : Ends (c.encode a ++ rest) := by
  obtain ⟨text, htext⟩ := c.encode_blank a
  rw [htext]
  exact ends_blank _

/-- The decoder of the whole text, nothing left over. -/
def decodeAll (c : TextCodec α) (text : List Char) : Option α :=
  match c.decode text with
  | some (a, []) => some a
  | _ => none

theorem decodeAll_encode (c : TextCodec α) (a : α) : c.decodeAll (c.encode a) = some a := by
  have h := c.decode_encode a [] ends_nil
  rw [List.append_nil] at h
  simp [decodeAll, h]

/-! ## Numbers and words -/

private theorem span_digits (n : ℕ) {rest : List Char} (h : Ends rest) :
    (Nat.toDigits 10 n ++ rest).span Char.isDigit = (Nat.toDigits 10 n, rest) := by
  have hdigit : ∀ c ∈ Nat.toDigits 10 n, c.isDigit = true := fun c hc =>
    Nat.isDigit_of_mem_toDigits (by omega) (by omega) hc
  rw [List.span_eq_takeWhile_dropWhile, List.takeWhile_append_of_pos hdigit,
    List.dropWhile_append_of_pos hdigit]
  cases rest with
  | nil => simp
  | cons x rest =>
    have hx : x.isDigit = false := h x rfl
    simp [hx]

/-- A decimal number. -/
def nat : TextCodec ℕ where
  encode := fun n => ' ' :: Nat.toDigits 10 n
  decode := fun text => match text with
    | ' ' :: text =>
        let (digits, rest) := text.span Char.isDigit
        if digits = [] then none else some (Nat.ofDigitChars 10 digits 0, rest)
    | _ => none
  encode_blank := fun _ => ⟨_, rfl⟩
  decode_encode := by
    intro n rest h
    rw [List.cons_append]
    simp only [span_digits n h, Nat.toDigits_ne_nil, if_false, Nat.ofDigitChars_ten_toDigits]

/-- A fixed text. -/
def literal (text : List Char) : TextCodec Unit where
  encode := fun _ => ' ' :: text
  decode := fun input =>
    if ' ' :: text <+: input then some ((), input.drop (text.length + 1)) else none
  encode_blank := fun _ => ⟨_, rfl⟩
  decode_encode := by
    intro _ rest _
    rw [if_pos (List.prefix_append _ rest), ← List.length_cons (a := ' '), List.drop_left]

/-- A blank, and `n` characters as they are. -/
def decodeChars (n : ℕ) : List Char → Option (String × List Char)
  | ' ' :: rest =>
      if n ≤ rest.length then some (String.ofList (rest.take n), rest.drop n) else none
  | _ => none

theorem decodeChars_append (s : String) (rest : List Char) :
    decodeChars s.length (' ' :: (s.toList ++ rest)) = some (s, rest) := by
  rw [decodeChars, if_pos (by simp [String.length_toList]), ← String.length_toList,
    List.take_left, List.drop_left, String.ofList_toList]

/-- The length of a string, and its characters. -/
def string : TextCodec String where
  encode := fun s => nat.encode s.length ++ ' ' :: s.toList
  decode := fun text => do
    let (n, rest) ← nat.decode text
    decodeChars n rest
  encode_blank := fun _ => ⟨_, rfl⟩
  decode_encode := by
    intro s rest _
    rw [List.append_assoc, List.cons_append, nat.decode_encode _ _ (ends_blank _)]
    exact decodeChars_append s rest

/-! ## Combinators -/

/-- One value after the other. -/
def prod (c : TextCodec α) (d : TextCodec β) : TextCodec (α × β) where
  encode := fun p => c.encode p.1 ++ d.encode p.2
  decode := fun text => do
    let (a, rest) ← c.decode text
    let (b, rest) ← d.decode rest
    return ((a, b), rest)
  encode_blank := by
    intro p
    obtain ⟨text, htext⟩ := c.encode_blank p.1
    exact ⟨text ++ d.encode p.2, by rw [htext, List.cons_append]⟩
  decode_encode := by
    intro p rest h
    rw [List.append_assoc, c.decode_encode _ _ (d.ends_encode _ _)]
    simp [d.decode_encode _ _ h]

/-- Values with the same content are written the same way. -/
def map (c : TextCodec α) (f : α → Option β) (g : β → α) (h : ∀ b, f (g b) = some b) :
    TextCodec β where
  encode := fun b => c.encode (g b)
  decode := fun text => do
    let (a, rest) ← c.decode text
    let b ← f a
    return (b, rest)
  encode_blank := fun b => c.encode_blank (g b)
  decode_encode := by
    intro b rest hrest
    rw [c.decode_encode _ _ hrest]
    simp [h]

/-- Read `n` values. -/
def decodeMany (c : TextCodec α) : ℕ → List Char → Option (List α × List Char)
  | 0, text => some ([], text)
  | n + 1, text => do
      let (a, rest) ← c.decode text
      let (as, rest) ← c.decodeMany n rest
      return (a :: as, rest)

/-- A number can stand in front of many values. -/
theorem ends_flatMap (c : TextCodec α) (as : List α) {rest : List Char} (h : Ends rest) :
    Ends (as.flatMap c.encode ++ rest) := by
  cases as with
  | nil => exact h
  | cons a as =>
    rw [List.flatMap_cons, List.append_assoc]
    exact c.ends_encode a _

theorem decodeMany_encode (c : TextCodec α) (as : List α) {rest : List Char} (h : Ends rest) :
    c.decodeMany as.length (as.flatMap c.encode ++ rest) = some (as, rest) := by
  induction as with
  | nil => rfl
  | cons a as ih =>
      rw [List.length_cons, List.flatMap_cons, List.append_assoc, decodeMany,
        c.decode_encode _ _ (c.ends_flatMap as h)]
      simp [ih]

/-- The length of a list, and then its elements. -/
def list (c : TextCodec α) : TextCodec (List α) where
  encode := fun as => nat.encode as.length ++ as.flatMap c.encode
  decode := fun text => do
    let (n, rest) ← nat.decode text
    c.decodeMany n rest
  encode_blank := fun _ => ⟨_, rfl⟩
  decode_encode := by
    intro as rest h
    rw [List.append_assoc, nat.decode_encode _ _ (c.ends_flatMap as h)]
    simp [decodeMany_encode c as h]

/-! ## Values that end by themselves -/

/-- The value is read back in front of any text. -/
def Closed (c : TextCodec α) : Prop :=
  ∀ a rest, c.decode (c.encode a ++ rest) = some (a, rest)

theorem closed_string : string.Closed := by
  intro s rest
  simp only [string]
  rw [List.append_assoc, List.cons_append, nat.decode_encode _ _ (ends_blank _)]
  exact decodeChars_append s rest

/-- What comes last decides. -/
theorem Closed.prod (c : TextCodec α) {d : TextCodec β} (h : d.Closed) : (c.prod d).Closed := by
  intro p rest
  simp only [TextCodec.prod]
  rw [List.append_assoc, c.decode_encode _ _ (d.ends_encode _ _)]
  simp [h p.2 rest]

theorem Closed.map {c : TextCodec α} (hc : c.Closed) {f : α → Option β} {g : β → α}
    (h : ∀ b, f (g b) = some b) : (c.map f g h).Closed := by
  intro b rest
  simp only [TextCodec.map]
  rw [hc (g b) rest]
  simp [h]

/-! ## Where the characters come from -/

/-- `chars` are the characters of the strings in a value.  They are written as they are, and what
else is written are `frame` characters; and whatever is read comes from the text. -/
structure Verbatim (c : TextCodec α) (frame : Char → Prop) (chars : α → List Char) : Prop where
  mem_encode : ∀ a, ∀ x ∈ c.encode a, x ∈ chars a ∨ frame x
  mem_chars : ∀ {text a rest}, c.decode text = some (a, rest) → chars a ⊆ text
  mem_rest : ∀ {text a rest}, c.decode text = some (a, rest) → rest ⊆ text

variable {frame : Char → Prop} {c : TextCodec α} {d : TextCodec β}
  {chars : α → List Char} {chars' : β → List Char}

theorem verbatim_nat (hdigit : ∀ x : Char, x.isDigit = true → frame x) (hblank : frame ' ') :
    nat.Verbatim frame fun _ => [] where
  mem_encode := by
    intro n x hx
    right
    rcases List.mem_cons.1 hx with rfl | hx
    · exact hblank
    · exact hdigit x (Nat.isDigit_of_mem_toDigits (by omega) (by omega) hx)
  mem_chars := fun _ => List.nil_subset _
  mem_rest := by
    intro text n rest h
    simp only [nat, List.span_eq_takeWhile_dropWhile] at h
    split at h
    · next tail =>
      split at h
      · cases h
      · cases h
        exact List.Subset.trans (List.dropWhile_suffix _).subset (List.subset_cons_self _ _)
    · cases h

theorem verbatim_literal {text : List Char} (h : ∀ x ∈ ' ' :: text, frame x) :
    (literal text).Verbatim frame fun _ => [] where
  mem_encode := fun _ x hx => .inr (h x hx)
  mem_chars := fun _ => List.nil_subset _
  mem_rest := by
    intro input _ rest h
    simp only [literal] at h
    split at h
    · cases h
      exact List.drop_subset _ _
    · cases h

/-- A string is read from the text behind its length. -/
private theorem decode_string {text rest : List Char} {s : String}
    (h : string.decode text = some (s, rest)) : s.toList ⊆ text ∧ rest ⊆ text := by
  have hnat : nat.Verbatim (fun _ => True) fun _ => [] :=
    verbatim_nat (fun _ _ => trivial) trivial
  obtain ⟨⟨n, rest₁⟩, h₁, h⟩ := Option.bind_eq_some_iff.1 h
  have hrest := hnat.mem_rest h₁
  simp only [decodeChars] at h
  split at h
  · split at h
    · cases h
      have hsub := List.Subset.trans (List.subset_cons_self ' ' _) hrest
      rw [String.toList_ofList]
      exact ⟨List.Subset.trans (List.take_subset _ _) hsub,
        List.Subset.trans (List.drop_subset _ _) hsub⟩
    · cases h
  · cases h

theorem verbatim_string (hdigit : ∀ x : Char, x.isDigit = true → frame x) (hblank : frame ' ') :
    string.Verbatim frame String.toList where
  mem_encode := by
    intro s x hx
    rcases List.mem_append.1 hx with hx | hx
    · exact ((verbatim_nat hdigit hblank).mem_encode s.length x hx).imp_left (by simp)
    · rcases List.mem_cons.1 hx with rfl | hx
      · exact .inr hblank
      · exact .inl hx
  mem_chars := fun h => (decode_string h).1
  mem_rest := fun h => (decode_string h).2

namespace Verbatim

theorem prod (hc : c.Verbatim frame chars) (hd : d.Verbatim frame chars') :
    (c.prod d).Verbatim frame fun p => chars p.1 ++ chars' p.2 where
  mem_encode := by
    intro p x hx
    rcases List.mem_append.1 hx with hx | hx
    · exact (hc.mem_encode p.1 x hx).imp_left (List.mem_append_left _)
    · exact (hd.mem_encode p.2 x hx).imp_left (List.mem_append_right _)
  mem_chars := by
    intro text p rest h
    obtain ⟨⟨a, rest₁⟩, h₁, h⟩ := Option.bind_eq_some_iff.1 h
    obtain ⟨⟨b, rest₂⟩, h₂, h⟩ := Option.bind_eq_some_iff.1 h
    cases h
    exact List.append_subset.2
      ⟨hc.mem_chars h₁, List.Subset.trans (hd.mem_chars h₂) (hc.mem_rest h₁)⟩
  mem_rest := by
    intro text p rest h
    obtain ⟨⟨a, rest₁⟩, h₁, h⟩ := Option.bind_eq_some_iff.1 h
    obtain ⟨⟨b, rest₂⟩, h₂, h⟩ := Option.bind_eq_some_iff.1 h
    cases h
    exact List.Subset.trans (hd.mem_rest h₂) (hc.mem_rest h₁)

/-- Values with the same content have the same strings. -/
theorem map (hc : c.Verbatim frame chars) {f : α → Option β} {g : β → α}
    {h : ∀ b, f (g b) = some b} (hchars : ∀ a b, f a = some b → chars' b ⊆ chars a)
    (hchars' : ∀ b, chars (g b) ⊆ chars' b) : (c.map f g h).Verbatim frame chars' where
  mem_encode := fun b x hx => (hc.mem_encode (g b) x hx).imp_left fun hx => hchars' b hx
  mem_chars := by
    intro text b rest h
    obtain ⟨⟨a, rest₁⟩, h₁, h⟩ := Option.bind_eq_some_iff.1 h
    obtain ⟨b, hb, h⟩ := Option.bind_eq_some_iff.1 h
    cases h
    exact List.Subset.trans (hchars a b hb) (hc.mem_chars h₁)
  mem_rest := by
    intro text b rest h
    obtain ⟨⟨a, rest₁⟩, h₁, h⟩ := Option.bind_eq_some_iff.1 h
    obtain ⟨b, hb, h⟩ := Option.bind_eq_some_iff.1 h
    cases h
    exact hc.mem_rest h₁

/-- The strings of many values, and what is left, come from the text. -/
theorem decodeMany (hc : c.Verbatim frame chars) (n : ℕ) {text rest : List Char} {as : List α}
    (h : c.decodeMany n text = some (as, rest)) : as.flatMap chars ⊆ text ∧ rest ⊆ text := by
  induction n generalizing text rest as with
  | zero =>
    cases h
    exact ⟨List.nil_subset _, List.Subset.refl _⟩
  | succ n ih =>
    obtain ⟨⟨a, rest₁⟩, h₁, h⟩ := Option.bind_eq_some_iff.1 h
    obtain ⟨⟨as', rest₂⟩, h₂, h⟩ := Option.bind_eq_some_iff.1 h
    cases h
    obtain ⟨hchars, hrest⟩ := ih h₂
    have hsub := hc.mem_rest h₁
    rw [List.flatMap_cons]
    exact ⟨List.append_subset.2 ⟨hc.mem_chars h₁, List.Subset.trans hchars hsub⟩,
      List.Subset.trans hrest hsub⟩

theorem list (hn : nat.Verbatim frame fun _ => []) (hc : c.Verbatim frame chars) :
    c.list.Verbatim frame fun as => as.flatMap chars where
  mem_encode := by
    intro as x hx
    rcases List.mem_append.1 hx with hx | hx
    · exact .inr ((hn.mem_encode _ x hx).resolve_left (List.not_mem_nil))
    · obtain ⟨a, ha, hx⟩ := List.mem_flatMap.1 hx
      exact (hc.mem_encode a x hx).imp_left fun hx => List.mem_flatMap.2 ⟨a, ha, hx⟩
  mem_chars := by
    intro text as rest h
    obtain ⟨⟨n, rest₁⟩, h₁, h⟩ := Option.bind_eq_some_iff.1 h
    exact List.Subset.trans (hc.decodeMany n h).1 (hn.mem_rest h₁)
  mem_rest := by
    intro text as rest h
    obtain ⟨⟨n, rest₁⟩, h₁, h⟩ := Option.bind_eq_some_iff.1 h
    exact List.Subset.trans (hc.decodeMany n h).2 (hn.mem_rest h₁)

end Verbatim

end TextCodec

end BlockchainMessaging
