import Sigil.Library.SelfDelimiting

/-! # Type-length-value records

A record is a type and a payload behind its length, the type and the length being numbers of fixed
width. A word is read record by record, until fewer bytes than a header are left or a type of
zero comes next. There is at most one way to read it, and none when a record runs past the end.
-/

namespace TypeLengthValue

open SelfDelimiting

/-- A record with `k` bytes for its type and `w` bytes for its length. -/
structure Record (k w : ℕ) where
  kind : ℕ
  payload : List UInt8
  kind_lt : kind < 256 ^ k
  length_lt : payload.length < 256 ^ w

variable {k w : ℕ}

namespace Record

def encode (r : Record k w) : List UInt8 :=
  leBytes k r.kind ++ (leBytes w r.payload.length ++ r.payload)

theorem encode_length (r : Record k w) : r.encode.length = k + w + r.payload.length := by
  simp [encode, Nat.add_assoc]

theorem delimits_encode : Delimits (encode (k := k) (w := w)) := by
  rintro ⟨kind, payload, hkind, hlength⟩ ⟨kind', payload', hkind', hlength'⟩ x y h
  simp only [encode, List.append_assoc] at h
  obtain ⟨rfl, hrest⟩ := leBytes_append_inj hkind hkind' h
  obtain ⟨hsame, hpayload⟩ := leBytes_append_inj hlength hlength' hrest
  obtain ⟨rfl, rfl⟩ := List.append_inj hpayload hsame
  exact ⟨rfl, rfl⟩

end Record

section Header

variable (k w)

/-- The type in the header at the front of a word. -/
def kindAt (word : List UInt8) : ℕ := ofLeBytes (word.take k)

def lengthAt (word : List UInt8) : ℕ := ofLeBytes ((word.drop k).take w)

/-- Reading ends where no header fits any more, and at a type of zero. -/
def Stops (word : List UInt8) : Prop := word.length < k + w ∨ kindAt k word = 0

end Header

@[simp] theorem kindAt_encode (r : Record k w) (word : List UInt8) :
    kindAt k (r.encode ++ word) = r.kind := by
  have htake : (r.encode ++ word).take k = leBytes k r.kind := by
    simp [Record.encode]
  rw [kindAt, htake, ofLeBytes_leBytes r.kind_lt]

@[simp] theorem lengthAt_encode (r : Record k w) (word : List UInt8) :
    lengthAt k w (r.encode ++ word) = r.payload.length := by
  have htake : ((r.encode ++ word).drop k).take w = leBytes w r.payload.length := by
    simp [Record.encode]
  rw [lengthAt, htake, ofLeBytes_leBytes r.length_lt]

theorem exists_record {word : List UInt8} (h : k + w + lengthAt k w word ≤ word.length) :
    ∃ r : Record k w, r.kind = kindAt k word ∧
      word = r.encode ++ word.drop (k + w + lengthAt k w word) := by
  have hk : (word.take k).length = k := by
    rw [List.length_take]
    omega
  have hw : ((word.drop k).take w).length = w := by
    rw [List.length_take, List.length_drop]
    omega
  have hpayload : ((word.drop (k + w)).take (lengthAt k w word)).length = lengthAt k w word := by
    rw [List.length_take, List.length_drop]
    omega
  have hkind : kindAt k word < 256 ^ k := (ofLeBytes_lt _).trans_eq (by rw [hk])
  have hlength : lengthAt k w word < 256 ^ w := (ofLeBytes_lt _).trans_eq (by rw [hw])
  have htype : leBytes k (kindAt k word) = word.take k := leBytes_ofLeBytes hk
  have hwidth : leBytes w (lengthAt k w word) = (word.drop k).take w := leBytes_ofLeBytes hw
  refine ⟨⟨kindAt k word, (word.drop (k + w)).take (lengthAt k w word), hkind, ?_⟩, rfl, ?_⟩
  · rw [hpayload]
    exact hlength
  · unfold Record.encode
    dsimp only
    rw [hpayload, htype, hwidth]
    simp only [← List.drop_drop, List.append_assoc, List.take_append_drop]

/-- Reading a word yields the records and leaves the rest. -/
structure Reads (word : List UInt8) (rs : List (Record k w)) (rest : List UInt8) : Prop where
  word : word = rs.flatMap Record.encode ++ rest
  kinds : ∀ r ∈ rs, r.kind ≠ 0
  stops : Stops k w rest

namespace Reads

variable {word word' rest rest' : List UInt8} {rs rs' : List (Record k w)} {r : Record k w}

theorem nil (h : Stops k w word) : Reads word ([] : List (Record k w)) word :=
  ⟨rfl, List.forall_mem_nil _, h⟩

theorem cons (hr : r.kind ≠ 0) (h : Reads word rs rest) :
    Reads (r.encode ++ word) (r :: rs) rest where
  word := by rw [List.flatMap_cons, List.append_assoc, ← h.word]
  kinds := List.forall_mem_cons.mpr ⟨hr, h.kinds⟩
  stops := h.stops

theorem of_cons (h : Reads word (r :: rs) rest) :
    ∃ word', word = r.encode ++ word' ∧ r.kind ≠ 0 ∧ Reads word' rs rest := by
  obtain ⟨hr, hrs⟩ := List.forall_mem_cons.mp h.kinds
  refine ⟨rs.flatMap Record.encode ++ rest, ?_, hr, rfl, hrs, h.stops⟩
  rw [h.word, List.flatMap_cons, List.append_assoc]

theorem not_stops_encode (hr : r.kind ≠ 0) : ¬ Stops k w (r.encode ++ word) := by
  rintro (hshort | hzero)
  · rw [List.length_append, r.encode_length] at hshort
    omega
  · exact hr ((kindAt_encode r word).symm.trans hzero)

theorem eq_nil (h : Reads word rs rest) (hstops : Stops k w word) : rs = [] := by
  cases rs with
  | nil => rfl
  | cons r rs =>
    obtain ⟨word', rfl, hr, -⟩ := h.of_cons
    exact absurd hstops (not_stops_encode hr)

theorem exists_cons (h : Reads word rs rest) (hgoes : ¬ Stops k w word) :
    ∃ r rs', rs = r :: rs' ∧ r.kind = kindAt k word ∧
      k + w + lengthAt k w word ≤ word.length ∧
      Reads (word.drop (k + w + lengthAt k w word)) rs' rest := by
  cases rs with
  | nil =>
    obtain rfl : word = rest := h.word
    exact absurd h.stops hgoes
  | cons r rs =>
    obtain ⟨word', rfl, -, htail⟩ := h.of_cons
    refine ⟨r, rs, rfl, (kindAt_encode r word').symm, ?_⟩
    rw [lengthAt_encode, ← r.encode_length, List.length_append, List.drop_left]
    exact ⟨Nat.le_add_right _ _, htail⟩

theorem exists_of_drop (hgoes : ¬ Stops k w word)
    (hfits : k + w + lengthAt k w word ≤ word.length)
    (h : Reads (word.drop (k + w + lengthAt k w word)) rs rest) :
    ∃ r : Record k w, r.kind = kindAt k word ∧ Reads word (r :: rs) rest := by
  obtain ⟨r, hkind, hword⟩ := exists_record hfits
  have hr : r.kind ≠ 0 := fun hzero => hgoes (.inr (hkind ▸ hzero))
  have hcons := h.cons hr
  rw [← hword] at hcons
  exact ⟨r, hkind, hcons⟩

theorem unique (h : Reads word rs rest) (h' : Reads word rs' rest') : rs = rs' ∧ rest = rest' := by
  induction rs generalizing word rs' with
  | nil =>
    obtain rfl : word = rest := h.word
    obtain rfl := h'.eq_nil h.stops
    exact ⟨rfl, h'.word⟩
  | cons r rs ih =>
    obtain ⟨word', hword, hr, htail⟩ := h.of_cons
    cases rs' with
    | nil =>
      obtain rfl : word = rest' := h'.word
      exact absurd h'.stops (hword ▸ not_stops_encode hr)
    | cons r' rs' =>
      obtain ⟨word'', hword', -, htail'⟩ := h'.of_cons
      obtain ⟨rfl, rfl⟩ := Record.delimits_encode (hword.symm.trans hword')
      obtain ⟨rfl, rfl⟩ := ih htail htail'
      exact ⟨rfl, rfl⟩

end Reads

/-- The number of headers that are looked at: one for each record, and one for the type of zero
that ends the reading when it is not the end of the word that does. -/
def headers (rs : List (Record k w)) (rest : List UInt8) : ℕ :=
  rs.length + if rest.length < k + w then 0 else 1

end TypeLengthValue
