import BlockchainMessaging.Archive

/-!
# Headers and messages as text

`Serializer<Data>` writes a value with a text archive and reads it back.  The archive is a
library; what the code relies on are the fields of the structure: a value is read back from a
text that begins with it, and the strings in a value are written as they are, between numbers
and blanks.  A value that ends with a number is read back only where no digit follows, so what may
stand behind a value is a parameter; headers and messages end with a string, and anything may.

## Main definitions

* `Itf.Header` — the header that a client puts in front of its messages.
* `Serializer` — the two functions, and what is known about them.
* `headerSerializer`, `messageSerializer` — one of each, so that runs can be evaluated.
-/

namespace BlockchainMessaging

/-- `common::itf::Header`. -/
structure Itf.Header where
  target : String := ""
  serverName : String := ""
  queName : String := ""
  clientAddress : String := ""
  deriving DecidableEq, Repr

/-- The strings in a header. -/
def Itf.Header.strings (header : Itf.Header) : List String :=
  [header.target, header.serverName, header.queName, header.clientAddress]

/-- The strings in a message. -/
def Message.strings (message : Message) : List String := [message.data, message.author]

/-- What the archive writes around the strings: its signature, numbers and blanks. -/
def archiveChar (x : Char) : Prop := x.isAlphanum = true ∨ x ∈ [' ', '\n', ':', '-']

instance (x : Char) : Decidable (archiveChar x) := inferInstanceAs (Decidable (_ ∨ _))

/-- `serialization::Serializer`, for data with certain strings in it, and for texts behind it that
may stand there.  `none` is an exception of the archive. -/
structure Serializer (Data : Type) (strings : Data → List String) (Behind : String → Prop) where
  serialize : Data → String
  deserialize : String → Option Data
  /-- The archive stops reading behind the value. -/
  deserialize_serialize : ∀ data rest, Behind rest →
    deserialize (serialize data ++ rest) = some data
  /-- The strings are written as raw characters. -/
  mem_serialize : ∀ data, ∀ x ∈ (serialize data).toList,
    (∃ s ∈ strings data, x ∈ s.toList) ∨ archiveChar x
  /-- They are read the same way; a string that is longer than what is left is filled up with
  NUL. -/
  mem_deserialize : ∀ {text data}, deserialize text = some data →
    ∀ s ∈ strings data, ∀ x ∈ s.toList, x ∈ text.toList ∨ x = '\x00'

namespace Serializer

variable {Data : Type} {strings : Data → List String}

/-- A value is not written as nothing: there are others. -/
theorem serialize_ne_empty (serializer : Serializer Data strings fun _ => True) [Nontrivial Data]
    (data : Data) : serializer.serialize data ≠ "" := by
  intro hempty
  obtain ⟨other, hother⟩ := exists_ne data
  have h := serializer.deserialize_serialize data (serializer.serialize other) trivial
  have h' := serializer.deserialize_serialize other "" trivial
  rw [hempty, String.empty_append] at h
  rw [String.append_empty, h] at h'
  exact hother (Option.some.inj h').symm

/-- A character that is in none of the strings, and that the archive does not use, is not in the
text. -/
theorem not_mem_serialize {Behind : String → Prop} (serializer : Serializer Data strings Behind)
    {data : Data} {x : Char} (hx : ¬ archiveChar x)
    (h : ∀ s ∈ strings data, x ∉ s.toList) : x ∉ (serializer.serialize data).toList := by
  intro hmem
  obtain ⟨s, hs, hxs⟩ | harchive := serializer.mem_serialize data x hmem
  · exact h s hs hxs
  · exact hx harchive

end Serializer

/-- `serialization::HeaderSerializer`.  A header ends with a string, so any text may follow. -/
abbrev Itf.HeaderSerializer := Serializer Itf.Header Itf.Header.strings fun _ => True

/-- `serialization::MessageSerializer`.  So does a message. -/
abbrev MessageSerializer := Serializer Message Message.strings fun _ => True

instance : Nontrivial Itf.Header := ⟨⟨{}, { target := "Send" }, by decide⟩⟩

instance : Nontrivial Message := ⟨⟨⟨0, "", ""⟩, ⟨1, "", ""⟩, by decide⟩⟩

/-! ## One archive -/

/-- An archive begins with its signature and its version. -/
def signature : List Char := "22 serialization::archive 19".toList

namespace TextCodec

/-- An object begins with two flags. -/
def object : TextCodec Unit := literal "0 0".toList

/-- The fields of a message, in the order in which `serialize` visits them. -/
def message : TextCodec Message :=
  (object.prod (nat.prod (string.prod string))).map
    (fun p => some ⟨p.2.1, p.2.2.1, p.2.2.2⟩)
    (fun m => ((), m.timestamp, m.data, m.author)) fun _ => rfl

/-- The fields of a header. -/
def header : TextCodec Itf.Header :=
  (object.prod (string.prod (string.prod (string.prod string)))).map
    (fun p => some ⟨p.2.1, p.2.2.1, p.2.2.2.1, p.2.2.2.2⟩)
    (fun h => ((), h.target, h.serverName, h.queName, h.clientAddress)) fun _ => rfl

theorem closed_message : message.Closed :=
  Closed.map ((closed_string.prod string).prod nat |>.prod object) _

theorem closed_header : header.Closed :=
  Closed.map (((closed_string.prod string).prod string).prod string |>.prod object) _

theorem archiveChar_digit (x : Char) (h : x.isDigit = true) : archiveChar x :=
  .inl (by simp [Char.isAlphanum, h])

theorem verbatim_number : nat.Verbatim archiveChar fun _ => [] :=
  verbatim_nat archiveChar_digit (.inr (by decide))

theorem verbatim_text : string.Verbatim archiveChar String.toList :=
  verbatim_string archiveChar_digit (.inr (by decide))

theorem verbatim_object : object.Verbatim archiveChar fun _ => [] :=
  verbatim_literal (by simp [archiveChar, Char.isAlphanum])

theorem verbatim_message :
    message.Verbatim archiveChar fun m => m.data.toList ++ m.author.toList :=
  (verbatim_object.prod (verbatim_number.prod (verbatim_text.prod verbatim_text))).map
    (fun p m h => by cases h; simp)
    (fun m => by simp)

theorem verbatim_header : header.Verbatim archiveChar fun h =>
    h.target.toList ++ (h.serverName.toList ++ (h.queName.toList ++ h.clientAddress.toList)) :=
  (verbatim_object.prod (verbatim_text.prod (verbatim_text.prod (verbatim_text.prod
    verbatim_text)))).map
    (fun p h hp => by cases hp; simp)
    (fun h => by simp)

theorem archiveChar_signature : ∀ x ∈ signature, archiveChar x := by
  have hall : signature.all (fun x => decide (archiveChar x)) = true := by decide +kernel
  simpa using hall

/-- The serializer that uses a codec, where it can tell the end of a value. -/
def serializer {Data : Type} (c : TextCodec Data) (strings : Data → List String)
    (Behind : String → Prop)
    (hread : ∀ data rest, Behind rest →
      c.decode (c.encode data ++ rest.toList) = some (data, rest.toList))
    (h : c.Verbatim archiveChar fun data => (strings data).flatMap String.toList) :
    Serializer Data strings Behind where
  serialize := fun data => String.ofList (signature ++ c.encode data)
  deserialize := fun text =>
    if signature <+: text.toList then
      (c.decode (text.toList.drop signature.length)).map Prod.fst
    else none
  deserialize_serialize := by
    intro data rest hrest
    rw [String.toList_append, String.toList_ofList, List.append_assoc,
      if_pos (List.prefix_append _ _), List.drop_left, hread data rest hrest]
    rfl
  mem_serialize := by
    intro data x hx
    rw [String.toList_ofList] at hx
    rcases List.mem_append.1 hx with hx | hx
    · exact .inr (archiveChar_signature x hx)
    · exact (h.mem_encode data x hx).imp_left List.mem_flatMap.1
  mem_deserialize := by
    intro text data hread s hs x hx
    split at hread
    · obtain ⟨⟨_, rest⟩, hdecode, rfl⟩ := Option.map_eq_some_iff.1 hread
      exact .inl (List.drop_subset _ _ (h.mem_chars hdecode (List.mem_flatMap.2 ⟨s, hs, hx⟩)))
    · cases hread

end TextCodec

/-- `serialization::HeaderSerializer`, with this archive. -/
def headerSerializer : Itf.HeaderSerializer :=
  TextCodec.header.serializer Itf.Header.strings _
    (fun data rest _ => TextCodec.closed_header data rest.toList)
    (by simpa [Itf.Header.strings] using TextCodec.verbatim_header)

/-- `serialization::MessageSerializer`, with this archive. -/
def messageSerializer : MessageSerializer :=
  TextCodec.message.serializer Message.strings _
    (fun data rest _ => TextCodec.closed_message data rest.toList)
    (by simpa [Message.strings] using TextCodec.verbatim_message)

end BlockchainMessaging
