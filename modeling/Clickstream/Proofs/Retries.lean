import Clickstream.Proofs.Growth

namespace Clickstream.Encoder

variable {owner : Owner} {record : Record}

theorem countAttempt_add (attempts k : Nat) :
    min (countAttempt attempts + k + 1) 0xffff_ffff = min (attempts + (k + 1) + 1) 0xffff_ffff := by
  simp only [countAttempt]
  omega

/-- What an encoder says of a record of this length, at each of so many sizes that are too small
for it, the first of which it tries after so many attempts. -/
def retries (owner : Owner) (length attempts start count : Nat) : List EncoderEvent :=
  (List.range count).map fun i => .retry owner ⟨growth start i, length⟩ (growth start (i + 1)) true
    (min (attempts + i + 1) 0xffff_ffff)

theorem retries_succ (owner : Owner) (length attempts start count : Nat) :
    retries owner length attempts start (count + 1) =
      .retry owner ⟨start, length⟩ (nextCapacity start) true (countAttempt attempts) ::
        retries owner length (countAttempt attempts) (nextCapacity start) count := by
  simp only [retries, List.range_succ_eq_map, List.map_cons, List.map_map, growth_next,
    countAttempt_add]
  rfl

/-- The hint goes through its growth up to the first size that the record fits. -/
theorem encodeAfter_of_ok {bytes : List UInt8}
    (encoded : Wire.encode record.schema record.value = .ok bytes)
    (short : bytes.length ≤ Size.largest) (attempts : Nat) (hint : CapacityHint) {k : Nat}
    (fits : bytes.length ≤ growth hint.current k)
    (least : ∀ j < k, growth hint.current j < bytes.length) :
    encodeAfter attempts owner record hint =
      ⟨.ok (⟨owner, bytes⟩,
          ⟨min (attempts + k + 1) 0xffff_ffff, growth hint.current k, bytes.length⟩),
        ⟨growth hint.current k⟩, retries owner bytes.length attempts hint.current k⟩ := by
  have outcome := attempt_of_ok hint.current encoded short
  -- What is left to do after a retry is the same with the next size for the first one.
  induction k generalizing attempts hint with
  | zero =>
    rw [if_pos (show bytes.length ≤ hint.current from fits)] at outcome
    rw [encodeAfter_encoded outcome]
    rfl
  | succ k ih =>
    have small : hint.current < bytes.length := least 0 (Nat.succ_pos k)
    rw [if_neg (Nat.not_le_of_lt small)] at outcome
    have rest (j : Nat) : growth (nextCapacity hint.current) j = growth hint.current (j + 1) :=
      growth_next hint.current j
    have before (j : Nat) (h : j < k) : growth (nextCapacity hint.current) j < bytes.length := by
      rw [rest]
      exact least (j + 1) (Nat.succ_lt_succ h)
    have later := ih (countAttempt attempts) ⟨nextCapacity hint.current⟩ (by rwa [rest]) before
      (attempt_of_ok _ encoded short)
    rw [encodeAfter_overflow outcome, later]
    simp only [rest, countAttempt_add, retries_succ]

/-- Encoding with a hint that no other encoder uses. A record that can be encoded gets a buffer in
the end, after one retry for each size on the way that is too small for it. One that cannot is
given up at the first attempt, however much of it there is before the mismatch, and leaves the hint
as it is. -/
theorem encode_unshared (owner : Owner) (record : Record) (hint : CapacityHint) :
    (∀ bytes, Wire.encode record.schema record.value = .ok bytes → bytes.length < Size.largest →
      ∃ k, (bytes.length ≤ growth hint.current k ∧
          ∀ j < k, growth hint.current j < bytes.length) ∧
        encode owner record hint =
          { result := .ok (⟨owner, bytes⟩,
              ⟨min (k + 1) 0xffff_ffff, growth hint.current k, bytes.length⟩)
            hint := ⟨growth hint.current k⟩
            events := (List.range k).map fun i =>
              .retry owner ⟨growth hint.current i, bytes.length⟩ (growth hint.current (i + 1)) true
                (min (i + 1) 0xffff_ffff) }) ∧
    (∀ mismatch, Wire.encode record.schema record.value = .error mismatch →
      encode owner record hint =
          { result := .error ⟨owner, mismatch⟩
            hint := hint
            events := [.failure owner mismatch] } ∧
        (SerializationError.source ⟨owner, mismatch⟩).code = "record.schema_mismatch") := by
  constructor
  · intro bytes encoded short
    obtain ⟨k, fits, least⟩ := exists_least_growth hint.current (Nat.le_of_lt short)
    refine ⟨k, ⟨fits, least⟩, ?_⟩
    rw [encode, encodeAfter_of_ok encoded (Nat.le_of_lt short) 0 hint fits least]
    simp only [retries, Nat.zero_add]
  · intro mismatch refused
    exact ⟨encodeAfter_mismatch (attempt_of_error hint.current refused), rfl⟩

/-- Five sizes are too small for a number of eight bytes, if the first of them is three. A text in
the place of a number is found behind a payload that does not fit. -/
theorem encode_unshared_retries :
    encode ⟨"a"⟩ ⟨.double, .double 1⟩ ⟨3⟩ =
      { result := .ok (⟨⟨"a"⟩, [1, 0, 0, 0, 0, 0, 0, 0]⟩, ⟨6, 8, 8⟩)
        hint := ⟨8⟩
        events := [.retry ⟨"a"⟩ ⟨3, 8⟩ 4 true 1, .retry ⟨"a"⟩ ⟨4, 8⟩ 5 true 2,
          .retry ⟨"a"⟩ ⟨5, 8⟩ 6 true 3, .retry ⟨"a"⟩ ⟨6, 8⟩ 7 true 4,
          .retry ⟨"a"⟩ ⟨7, 8⟩ 8 true 5] } ∧
    (let schema := .record "r" [("payload", .bytes), ("n", .long)]
     let value := .record [.bytes [1, 1, 1, 1, 1], .string "x"]
     let mismatch := ⟨[.field "n"], .kind .long .string⟩
     encode ⟨"b"⟩ ⟨schema, value⟩ ⟨3⟩ =
      { result := .error ⟨⟨"b"⟩, mismatch⟩
        hint := ⟨3⟩
        events := [.failure ⟨"b"⟩ mismatch] }) := by
  constructor
  · obtain ⟨k, ⟨fits, least⟩, outcome⟩ :=
      (encode_unshared ⟨"a"⟩ ⟨.double, .double 1⟩ ⟨3⟩).1 [1, 0, 0, 0, 0, 0, 0, 0] rfl (by decide)
    have tooSmall : ∀ j < 5, ¬ 8 ≤ growth 3 j := by decide
    have enough : ¬ 5 < k := fun beyond => absurd (least 5 beyond) (by decide)
    obtain rfl : k = 5 := by
      refine Nat.le_antisymm (Nat.le_of_not_lt enough) (Nat.le_of_not_lt fun before => ?_)
      exact tooSmall k before fits
    exact outcome
  · exact ((encode_unshared ⟨"b"⟩ _ ⟨3⟩).2 _ rfl).1

end Clickstream.Encoder
