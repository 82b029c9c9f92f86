import SequoiaOpenpgp.Packet.BodyLength

/-! # What the body-length decoders decode

* `u32Sub_eq`, `u32Add_eq`, `u32Shl_eq`: the checked operations where their checks pass, as
  natural numbers; `twoOctetLength_eq` and `partialBodyLength_eq` then show that no operation of
  `parse_new_format` overflows.
* One lemma per branch of `parseNewFormat`; `parseNewFormat_result` assembles them into what a
  single call does on any input, against `NewFormatForm.encode`, the RFC 4880 encodings.
* `parseNewFormat_bijection` (new format) and `parseOldFormat_inverse` (old format).
-/

namespace SequoiaOpenpgp
set_option autoImplicit false

open BufferedReader

/-! ## Machine integers as natural numbers -/

theorem u8_toNat_ofNat (n : Nat) : (UInt8.ofNat n).toNat = n % 2 ^ 8 := BitVec.toNat_ofNat _ _

theorem u8_ofNat_toNat (a : UInt8) : UInt8.ofNat a.toNat = a :=
  UInt8.toNat.inj ((u8_toNat_ofNat _).trans (Nat.mod_eq_of_lt a.toNat_lt_size))

@[simp] theorem u8_toNat_toUInt32 (a : UInt8) : a.toUInt32.toNat = a.toNat := rfl

theorem u8_getElem!_singleton (b : UInt8) : [b][0]! = b := rfl

theorem u8_toNat_and_31 (a : UInt8) : (a &&& 0x1F).toNat = a.toNat % 32 :=
  (UInt8.and_toNat a 0x1F).trans (Nat.and_pow_two_sub_one_eq_mod _ 5)

theorem u16_toNat_ofNat (n : Nat) : (UInt16.ofNat n).toNat = n % 2 ^ 16 := BitVec.toNat_ofNat _ _

@[simp] theorem u16_toNat_toUInt32 (a : UInt16) : a.toUInt32.toNat = a.toNat := rfl

theorem u32_toNat_ofNat (n : Nat) : (UInt32.ofNat n).toNat = n % 2 ^ 32 := BitVec.toNat_ofNat _ _

theorem u32_ofNat_toNat (a : UInt32) : UInt32.ofNat a.toNat = a :=
  UInt32.toNat.inj ((u32_toNat_ofNat _).trans (Nat.mod_eq_of_lt a.toNat_lt_size))

theorem u32_toNat_192 : (192 : UInt32).toNat = 192 := rfl

theorem u32_toNat_shiftLeft (a : UInt32) {b : Nat} (hb : b < 32) :
    (a <<< UInt32.ofNat b).toNat = a.toNat * 2 ^ b % 2 ^ 32 := by
  show (a.toBitVec <<< (BitVec.ofNat 32 b % BitVec.ofNat 32 32)).toNat = _
  rw [BitVec.shiftLeft_eq', BitVec.toNat_shiftLeft, BitVec.toNat_umod, BitVec.toNat_ofNat,
    BitVec.toNat_ofNat, Nat.shiftLeft_eq, Nat.mod_eq_of_lt (by omega : b < 2 ^ 32),
    Nat.mod_eq_of_lt (by omega : b < 32 % 2 ^ 32)]
  rfl

/-! ## Checked `u32` arithmetic -/

/-- Where `a - b` does not underflow it is the difference. -/
theorem u32Sub_eq {a b : UInt32} (h : b.toNat ≤ a.toNat) :
    u32Sub a b = pure (UInt32.ofNat (a.toNat - b.toNat)) := by
  have hle : b ≤ a := h
  rw [u32Sub, if_pos hle, ← UInt32.toNat_sub_of_le _ _ hle, u32_ofNat_toNat]

theorem u32Add_eq {a b : UInt32} (h : a.toNat + b.toNat < 2 ^ 32) :
    u32Add a b = pure (UInt32.ofNat (a.toNat + b.toNat)) := by
  rw [u32Add, if_pos h]
  rfl

theorem u32Shl_eq (a : UInt32) {b : Nat} (hb : b < 32) :
    u32Shl a b = pure (UInt32.ofNat (a.toNat * 2 ^ b)) := by
  rw [u32Shl, if_pos hb, ← u32_ofNat_toNat (a <<< _), u32_toNat_shiftLeft a hb,
    ← u32_toNat_ofNat, u32_ofNat_toNat]

/-! ## Big-endian integers -/

/-- The `w`-byte big-endian encoding of `n`: its low `8 w` bits. -/
def beBytes : Nat → Nat → List UInt8
  | 0, _ => []
  | w + 1, n => beBytes w (n / 256) ++ [UInt8.ofNat (n % 256)]

@[simp] theorem length_beBytes (w n : Nat) : (beBytes w n).length = w := by
  induction w generalizing n with
  | zero => rfl
  | succ w ih => simp [beBytes, ih]

theorem beValue_append_singleton (bytes : List UInt8) (b : UInt8) :
    beValue (bytes ++ [b]) = beValue bytes * 256 + b.toNat := by
  simp [beValue, List.foldl_append]

theorem beValue_beBytes (w n : Nat) : beValue (beBytes w n) = n % 2 ^ (8 * w) := by
  induction w generalizing n with
  | zero => simp [beBytes, beValue, Nat.mod_one]
  | succ w ih =>
    have h8 : 2 ^ (8 * (w + 1)) = 256 * 2 ^ (8 * w) := by
      rw [Nat.mul_succ, Nat.pow_add, Nat.mul_comm]
    rw [beBytes, beValue_append_singleton, ih, u8_toNat_ofNat, h8, Nat.mod_mul,
      show (2 : ℕ) ^ 8 = 256 from rfl]
    omega

theorem beBytes_beValue : ∀ (w : Nat) (bytes : List UInt8), bytes.length = w →
    beBytes w (beValue bytes) = bytes
  | 0, [], _ => rfl
  | w + 1, bytes, h => by
    obtain ⟨init, b, rfl⟩ := List.eq_nil_or_concat bytes |>.resolve_left (by rintro rfl; simp at h)
    have hb : b.toNat < 256 := b.toNat_lt_size
    rw [List.concat_eq_append] at h ⊢
    have h' : init.length = w := by simpa using h
    rw [beBytes, beValue_append_singleton, show (beValue init * 256 + b.toNat) / 256 = beValue init by omega,
      beBytes_beValue w init h', show (beValue init * 256 + b.toNat) % 256 = b.toNat by omega, u8_ofNat_toNat]

theorem beValue_lt (bytes : List UInt8) : beValue bytes < 2 ^ (8 * bytes.length) := by
  rw [← beBytes_beValue bytes.length bytes rfl, beValue_beBytes, length_beBytes]
  exact Nat.mod_lt _ (Nat.two_pow_pos _)

theorem readBeU16_append {bytes : List UInt8} (h : bytes.length = 2) (rest : List UInt8) :
    readBeU16 (bytes ++ rest) = .ok (UInt16.ofNat (beValue bytes), rest) := by
  simp [readBeU16, bind_apply, ← h, dataConsumeHard_append]

theorem readBeU32_append {bytes : List UInt8} (h : bytes.length = 4) (rest : List UInt8) :
    readBeU32 (bytes ++ rest) = .ok (UInt32.ofNat (beValue bytes), rest) := by
  simp [readBeU32, bind_apply, ← h, dataConsumeHard_append]

theorem readBeU16_of_lt {s : List UInt8} (h : s.length < 2) : readBeU16 s = .error .unexpectedEof := by
  simp [readBeU16, bind_apply, dataConsumeHard_of_lt h]

theorem readBeU32_of_lt {s : List UInt8} (h : s.length < 4) : readBeU32 s = .error .unexpectedEof := by
  simp [readBeU32, bind_apply, dataConsumeHard_of_lt h]

/-! ## The RFC 4880 encodings -/

/-- The four new-format encodings (RFC 4880, Section 4.2.2). -/
inductive NewFormatForm where
  | oneOctet
  | twoOctets
  | partialBody
  | fiveOctets
  deriving DecidableEq, Repr

namespace NewFormatForm

/-- The form the first octet selects. -/
def ofOctet (octet1 : UInt8) : NewFormatForm :=
  if octet1.toNat ≤ 191 then oneOctet
  else if octet1.toNat ≤ 223 then twoOctets
  else if octet1.toNat ≤ 254 then partialBody
  else fiveOctets

/-- How many octets the form takes. -/
def width : NewFormatForm → Nat
  | oneOctet => 1
  | twoOctets => 2
  | partialBody => 1
  | fiveOctets => 5

/-- The two octets `((n - 192) >> 8) + 192` and `(n - 192) & 0xFF`. -/
def twoOctetEncoding (n : Nat) : List UInt8 :=
  [UInt8.ofNat (((n - 192) >>> 8) + 192), UInt8.ofNat ((n - 192) &&& 0xFF)]

/-- The encoding of a body length in this form, when the form can express it. -/
def encode : NewFormatForm → BodyLength → Option (List UInt8)
  | oneOctet, .full n => if n.toNat < 192 then some [UInt8.ofNat n.toNat] else none
  | twoOctets, .full n =>
    if 192 ≤ n.toNat ∧ n.toNat ≤ 8383 then some (twoOctetEncoding n.toNat) else none
  | partialBody, .partialBody n =>
    if n.toNat = 2 ^ n.toNat.log2 ∧ n.toNat.log2 ≤ 30 then some [UInt8.ofNat (224 + n.toNat.log2)]
    else none
  | fiveOctets, .full n => some (0xFF :: beBytes 4 n.toNat)
  | _, _ => none

theorem encode_twoOctets_eq_some {v : BodyLength} {bytes : List UInt8}
    (h : twoOctets.encode v = some bytes) : ∃ n : UInt32, v = .full n ∧ 192 ≤ n.toNat ∧ n.toNat ≤ 8383 := by
  cases v with
  | full n =>
    by_cases hn : 192 ≤ n.toNat ∧ n.toNat ≤ 8383
    · exact ⟨n, rfl, hn⟩
    · simp [encode, hn] at h
  | _ => simp [encode] at h

theorem encode_partialBody_eq_some {v : BodyLength} {bytes : List UInt8}
    (h : partialBody.encode v = some bytes) :
    ∃ k ≤ 30, v = .partialBody (UInt32.ofNat (2 ^ k)) := by
  cases v with
  | partialBody n =>
    by_cases hn : n.toNat = 2 ^ n.toNat.log2 ∧ n.toNat.log2 ≤ 30
    · refine ⟨n.toNat.log2, hn.2, ?_⟩
      rw [← hn.1, u32_ofNat_toNat]
    · simp [encode, hn] at h
  | _ => simp [encode] at h

end NewFormatForm

/-- The form `parse_new_format` reads from `s`, chosen by its first octet. -/
def newFormatForm (s : List UInt8) : NewFormatForm := NewFormatForm.ofOctet (s.headD 0)

/-- The minimal new-format encoding of a full length: one octet below 192, two octets up to
8383, else `0xFF` and four big-endian octets. -/
def minimalNewFormat (n : UInt32) : List UInt8 :=
  if n.toNat < 192 then [UInt8.ofNat n.toNat]
  else if n.toNat ≤ 8383 then NewFormatForm.twoOctetEncoding n.toNat
  else 0xFF :: beBytes 4 n.toNat

/-- How many length octets follow an old-format CTB of this length type. -/
def PacketLengthType.width : PacketLengthType → Nat
  | .oneOctet => 1
  | .twoOctets => 2
  | .fourOctets => 4
  | .indeterminate => 0

/-! ## The length computations of `parse_new_format` -/

/-- For a two-octet first octet, no `u32` operation of the length overflows or underflows, and
the length is `((octet1 - 192) << 8) + octet2 + 192` computed exactly. -/
theorem twoOctetLength_eq {octet1 : UInt8} (h1 : 192 ≤ octet1.toNat) (h2 : octet1.toNat ≤ 223)
    (octet2 : UInt8) :
    twoOctetLength octet1 octet2 =
      pure (UInt32.ofNat ((octet1.toNat - 192) * 2 ^ 8 + octet2.toNat + 192)) := by
  have h3 : octet2.toNat < 256 := octet2.toNat_lt_size
  have e1 : (octet1.toNat - 192) % 2 ^ 32 * 2 ^ 8 % 2 ^ 32 = (octet1.toNat - 192) * 2 ^ 8 := by
    rw [Nat.mod_eq_of_lt (by omega), Nat.mod_eq_of_lt (by omega)]
  have e2 : ((octet1.toNat - 192) * 2 ^ 8 + octet2.toNat) % 2 ^ 32 =
      (octet1.toNat - 192) * 2 ^ 8 + octet2.toNat := Nat.mod_eq_of_lt (by omega)
  rw [twoOctetLength, u32Sub_eq (by rw [u32_toNat_192, u8_toNat_toUInt32]; exact h1), pure_bind,
    u32Shl_eq _ (by decide), pure_bind, u32Add_eq, pure_bind, u32Add_eq]
  all_goals simp only [u32_toNat_ofNat, u8_toNat_toUInt32, u32_toNat_192, e1, e2]
  all_goals omega

/-- For a partial-body first octet, `1 << (octet1 & 0x1F)` does not overflow: it is
`2 ^ (octet1 - 224)`. -/
theorem partialBodyLength_eq {octet1 : UInt8} (h1 : 224 ≤ octet1.toNat) (h2 : octet1.toNat ≤ 254) :
    partialBodyLength octet1 = pure (UInt32.ofNat (2 ^ (octet1.toNat - 224))) := by
  have hk : octet1.toNat % 32 = octet1.toNat - 224 := by omega
  rw [partialBodyLength, u8_toNat_and_31, hk, u32Shl_eq _ (by omega),
    show (1 : UInt32).toNat = 1 from rfl, Nat.one_mul]

/-! ## `parse_new_format`, branch by branch -/

theorem parseNewFormat_nil : parseNewFormat [] = .error .unexpectedEof := rfl

theorem parseNewFormat_oneOctet {octet1 : UInt8} (h : octet1.toNat ≤ 191) (rest : List UInt8) :
    parseNewFormat (octet1 :: rest) = .ok (.full octet1.toUInt32, rest) := by
  have h' : octet1 ≤ 191 := h
  simp [parseNewFormat, bind_apply, dataConsumeHard_one, u8_getElem!_singleton, h']

theorem parseNewFormat_twoOctets {octet1 : UInt8} (h1 : 192 ≤ octet1.toNat)
    (h2 : octet1.toNat ≤ 223) (octet2 : UInt8) (rest : List UInt8) :
    parseNewFormat (octet1 :: octet2 :: rest) =
      .ok (.full (UInt32.ofNat ((octet1.toNat - 192) * 2 ^ 8 + octet2.toNat + 192)), rest) := by
  have h1' : ¬ octet1 ≤ 191 := show ¬ octet1.toNat ≤ 191 by omega
  have h2' : octet1 ≤ 223 := h2
  simp [parseNewFormat, bind_apply, dataConsumeHard_one, u8_getElem!_singleton, h1', h2',
    twoOctetLength_eq h1 h2]

theorem parseNewFormat_twoOctets_eof {octet1 : UInt8} (h1 : 192 ≤ octet1.toNat)
    (h2 : octet1.toNat ≤ 223) : parseNewFormat [octet1] = .error .unexpectedEof := by
  have h1' : ¬ octet1 ≤ 191 := show ¬ octet1.toNat ≤ 191 by omega
  have h2' : octet1 ≤ 223 := h2
  simp [parseNewFormat, bind_apply, dataConsumeHard_one, u8_getElem!_singleton, h1', h2',
    dataConsumeHard_of_lt]

theorem parseNewFormat_partialBody {octet1 : UInt8} (h1 : 224 ≤ octet1.toNat)
    (h2 : octet1.toNat ≤ 254) (rest : List UInt8) :
    parseNewFormat (octet1 :: rest) =
      .ok (.partialBody (UInt32.ofNat (2 ^ (octet1.toNat - 224))), rest) := by
  have h1' : ¬ octet1 ≤ 191 := show ¬ octet1.toNat ≤ 191 by omega
  have h2' : ¬ octet1 ≤ 223 := show ¬ octet1.toNat ≤ 223 by omega
  have h3' : octet1 ≤ 254 := h2
  simp [parseNewFormat, bind_apply, dataConsumeHard_one, u8_getElem!_singleton, h1', h2', h3',
    partialBodyLength_eq h1 h2]

theorem parseNewFormat_fiveOctets {octet1 : UInt8} (h : octet1.toNat = 255) {bytes : List UInt8}
    (hb : bytes.length = 4) (rest : List UInt8) :
    parseNewFormat (octet1 :: (bytes ++ rest)) =
      .ok (.full (UInt32.ofNat (beValue bytes)), rest) := by
  have h1' : ¬ octet1 ≤ 191 := show ¬ octet1.toNat ≤ 191 by omega
  have h2' : ¬ octet1 ≤ 223 := show ¬ octet1.toNat ≤ 223 by omega
  have h3' : ¬ octet1 ≤ 254 := show ¬ octet1.toNat ≤ 254 by omega
  simp [parseNewFormat, bind_apply, dataConsumeHard_one, u8_getElem!_singleton, h1', h2', h3',
    readBeU32_append hb, map_apply]

theorem parseNewFormat_fiveOctets_eof {octet1 : UInt8} (h : octet1.toNat = 255) {s : List UInt8}
    (hs : s.length < 4) : parseNewFormat (octet1 :: s) = .error .unexpectedEof := by
  have h1' : ¬ octet1 ≤ 191 := show ¬ octet1.toNat ≤ 191 by omega
  have h2' : ¬ octet1 ≤ 223 := show ¬ octet1.toNat ≤ 223 by omega
  have h3' : ¬ octet1 ≤ 254 := show ¬ octet1.toNat ≤ 254 by omega
  simp [parseNewFormat, bind_apply, dataConsumeHard_one, u8_getElem!_singleton, h1', h2', h3',
    readBeU32_of_lt hs, map_apply]

/-! ## `parse_new_format` decodes the new-format encodings -/

theorem twoOctetEncoding_value {octet1 : UInt8} (h1 : 192 ≤ octet1.toNat) (h2 : octet1.toNat ≤ 223)
    (octet2 : UInt8) :
    NewFormatForm.twoOctetEncoding ((octet1.toNat - 192) * 2 ^ 8 + octet2.toNat + 192) =
      [octet1, octet2] := by
  have h3 : octet2.toNat < 256 := octet2.toNat_lt_size
  simp only [NewFormatForm.twoOctetEncoding, Nat.shiftRight_eq_div_pow,
    show (0xFF : Nat) = 2 ^ 8 - 1 from rfl, Nat.and_pow_two_sub_one_eq_mod, List.cons.injEq, and_true]
  constructor <;> apply UInt8.toNat.inj <;> rw [u8_toNat_ofNat] <;> omega

theorem parseNewFormat_twoOctetEncoding {n : Nat} (h1 : 192 ≤ n) (h2 : n ≤ 8383) (rest : List UInt8) :
    parseNewFormat (NewFormatForm.twoOctetEncoding n ++ rest) = .ok (.full (UInt32.ofNat n), rest) := by
  have e1 : (UInt8.ofNat (((n - 192) >>> 8) + 192)).toNat = (n - 192) / 2 ^ 8 + 192 := by
    rw [u8_toNat_ofNat, Nat.shiftRight_eq_div_pow]; omega
  have e2 : (UInt8.ofNat ((n - 192) &&& 0xFF)).toNat = (n - 192) % 2 ^ 8 := by
    rw [u8_toNat_ofNat, show (0xFF : Nat) = 2 ^ 8 - 1 from rfl, Nat.and_pow_two_sub_one_eq_mod]; omega
  rw [NewFormatForm.twoOctetEncoding, List.cons_append, List.cons_append, List.nil_append,
    parseNewFormat_twoOctets (by omega) (by omega), e1, e2,
    show ((n - 192) / 2 ^ 8 + 192 - 192) * 2 ^ 8 + (n - 192) % 2 ^ 8 + 192 = n by omega]

/-- (a) The minimal encoding of every full length decodes to it and leaves the rest. -/
theorem parseNewFormat_minimalNewFormat (n : UInt32) (rest : List UInt8) :
    parseNewFormat (minimalNewFormat n ++ rest) = .ok (.full n, rest) := by
  have hn : n.toNat < 2 ^ 32 := n.toNat_lt_size
  unfold minimalNewFormat
  split_ifs with h1 h2
  · have e : (UInt8.ofNat n.toNat).toNat = n.toNat := by rw [u8_toNat_ofNat]; omega
    rw [List.singleton_append, parseNewFormat_oneOctet (by omega)]
    congr
    exact UInt32.toNat.inj (by rw [u8_toNat_toUInt32, e])
  · rw [parseNewFormat_twoOctetEncoding (by omega) h2, u32_ofNat_toNat]
  · rw [List.cons_append, parseNewFormat_fiveOctets (show (0xFF : UInt8).toNat = 255 from rfl) (length_beBytes 4 _), beValue_beBytes,
      Nat.mod_eq_of_lt hn, u32_ofNat_toNat]

/-- (b) The octet `224 + k` is the partial length `2 ^ k`. -/
theorem parseNewFormat_partialOctet {k : Nat} (hk : k ≤ 30) (rest : List UInt8) :
    parseNewFormat (UInt8.ofNat (224 + k) :: rest) =
      .ok (.partialBody (UInt32.ofNat (2 ^ k)), rest) := by
  have e : (UInt8.ofNat (224 + k)).toNat = 224 + k := by rw [u8_toNat_ofNat]; omega
  rw [parseNewFormat_partialBody (by omega) (by omega), e, Nat.add_sub_cancel_left]

/-- What one call of `parse_new_format` does on any input: on success it consumed the encoding,
in the form the first octet selects, of what it returned; it fails only at the end of the input,
when fewer octets are left than that form takes. -/
theorem parseNewFormat_result (s : List UInt8) :
    match parseNewFormat s with
    | .ok (v, rest) => ∃ bytes, s = bytes ++ rest ∧ bytes.length = (newFormatForm s).width ∧
        (newFormatForm s).encode v = some bytes
    | .error e => e = .unexpectedEof ∧ s.length < (newFormatForm s).width := by
  rcases s with _ | ⟨octet1, t⟩
  · exact ⟨rfl, by decide⟩
  have h0 : octet1.toNat < 256 := octet1.toNat_lt_size
  simp only [newFormatForm, List.headD_cons]
  by_cases h1 : octet1.toNat ≤ 191
  · rw [parseNewFormat_oneOctet h1]
    refine ⟨[octet1], rfl, by simp [NewFormatForm.ofOctet, h1, NewFormatForm.width], ?_⟩
    simp [NewFormatForm.ofOctet, h1, NewFormatForm.encode, u8_ofNat_toNat, show octet1.toNat < 192 by omega]
  by_cases h2 : octet1.toNat ≤ 223
  · have hf : NewFormatForm.ofOctet octet1 = .twoOctets := by simp [NewFormatForm.ofOctet, h1, h2]
    rcases t with _ | ⟨octet2, t⟩
    · rw [parseNewFormat_twoOctets_eof (by omega) h2, hf]
      exact ⟨rfl, by simp [NewFormatForm.width]⟩
    · have h3 : octet2.toNat < 256 := octet2.toNat_lt_size
      rw [parseNewFormat_twoOctets (by omega) h2, hf]
      refine ⟨[octet1, octet2], rfl, rfl, ?_⟩
      rw [NewFormatForm.encode, u32_toNat_ofNat, Nat.mod_eq_of_lt (by omega), if_pos (by omega),
        twoOctetEncoding_value (by omega) h2]
  by_cases h3 : octet1.toNat ≤ 254
  · have hf : NewFormatForm.ofOctet octet1 = .partialBody := by simp [NewFormatForm.ofOctet, h1, h2, h3]
    have hk : (UInt32.ofNat (2 ^ (octet1.toNat - 224))).toNat = 2 ^ (octet1.toNat - 224) := by
      rw [u32_toNat_ofNat, Nat.mod_eq_of_lt (Nat.pow_lt_pow_right (by decide) (by omega))]
    rw [parseNewFormat_partialBody (by omega) h3, hf]
    refine ⟨[octet1], rfl, rfl, ?_⟩
    rw [NewFormatForm.encode, hk, Nat.log2_two_pow, if_pos ⟨rfl, by omega⟩,
      show 224 + (octet1.toNat - 224) = octet1.toNat by omega, u8_ofNat_toNat]
  have hf : NewFormatForm.ofOctet octet1 = .fiveOctets := by simp [NewFormatForm.ofOctet, h1, h2, h3]
  by_cases h4 : t.length < 4
  · rw [parseNewFormat_fiveOctets_eof (by omega) h4, hf]
    exact ⟨rfl, by simp [NewFormatForm.width]; omega⟩
  have hlen : (t.take 4).length = 4 := by simp; omega
  rw [← List.take_append_drop 4 t, parseNewFormat_fiveOctets (by omega) hlen, hf]
  refine ⟨octet1 :: t.take 4, rfl, by simp [NewFormatForm.width, hlen], ?_⟩
  have hv := beValue_lt (t.take 4)
  rw [hlen] at hv
  rw [NewFormatForm.encode, u32_toNat_ofNat, Nat.mod_eq_of_lt hv, beBytes_beValue 4 _ hlen,
    show (0xFF : UInt8) = octet1 from UInt8.toNat.inj (by rw [show (0xFF : UInt8).toNat = 255 from rfl]; omega)]

/-- `BodyLength::parse_new_format` is a bijection between the new-format length encodings and the
values they denote: (a) the minimal encoding of every `u32` decodes to it, (b) the octet `224 + k`
to the partial length `2 ^ k`; (c) whatever it decodes it read in the form the first octet
selects, so two octets give exactly `192..8383` and a partial length is a power of two up to
`2 ^ 30`; it fails exactly when the input is shorter than that form, and never on `u32`
overflow. -/
theorem parseNewFormat_bijection :
    (∀ (n : UInt32) (rest : List UInt8),
      parseNewFormat (minimalNewFormat n ++ rest) = .ok (.full n, rest)) ∧
    (∀ k ≤ 30, ∀ rest : List UInt8, parseNewFormat (UInt8.ofNat (224 + k) :: rest) =
      .ok (.partialBody (UInt32.ofNat (2 ^ k)), rest)) ∧
    (∀ (s rest : List UInt8) (v : BodyLength), parseNewFormat s = .ok (v, rest) →
      ∃ bytes, s = bytes ++ rest ∧ bytes.length = (newFormatForm s).width ∧
        (newFormatForm s).encode v = some bytes) ∧
    (∀ (s rest : List UInt8) (v : BodyLength), parseNewFormat s = .ok (v, rest) →
      (newFormatForm s = .twoOctets →
        ∃ n : UInt32, v = .full n ∧ 192 ≤ n.toNat ∧ n.toNat ≤ 8383) ∧
      (newFormatForm s = .partialBody → ∃ k ≤ 30, v = .partialBody (UInt32.ofNat (2 ^ k)))) ∧
    (∀ s : List UInt8, (∃ e, parseNewFormat s = .error e) ↔ s.length < (newFormatForm s).width) ∧
    (∀ (s : List UInt8) (e : ReadError), parseNewFormat s = .error e → e = .unexpectedEof) := by
  have consumed : ∀ (s rest : List UInt8) (v : BodyLength), parseNewFormat s = .ok (v, rest) →
      ∃ bytes, s = bytes ++ rest ∧ bytes.length = (newFormatForm s).width ∧
        (newFormatForm s).encode v = some bytes := fun s rest v h => by
    simpa [h] using parseNewFormat_result s
  have failed : ∀ (s : List UInt8) (e : ReadError), parseNewFormat s = .error e →
      e = .unexpectedEof ∧ s.length < (newFormatForm s).width := fun s e h => by
    simpa [h] using parseNewFormat_result s
  refine ⟨parseNewFormat_minimalNewFormat, fun k hk => parseNewFormat_partialOctet hk, consumed,
    fun s rest v h => ?_, fun s => ⟨fun ⟨e, h⟩ => (failed s e h).2, fun hs => ?_⟩,
    fun s e h => (failed s e h).1⟩
  · obtain ⟨bytes, -, -, henc⟩ := consumed s rest v h
    exact ⟨fun hf => NewFormatForm.encode_twoOctets_eq_some (hf ▸ henc),
      fun hf => NewFormatForm.encode_partialBody_eq_some (hf ▸ henc)⟩
  · rcases hp : parseNewFormat s with e | ⟨v, rest⟩
    · exact ⟨e, rfl⟩
    · obtain ⟨bytes, rfl, hlen, -⟩ := consumed _ rest v hp
      simp at hs
      omega

/-- RFC 4880, Section 4.2.3: the two-octet and the partial-body examples. -/
example : parseNewFormat [0xC5, 0xFB] = .ok (.full 1723, []) := rfl
example : parseNewFormat [0xEF] = .ok (.partialBody 32768, []) := rfl

/-! ## `parse_old_format` decodes the old-format encodings -/

theorem parseOldFormat_of_lt {lengthType : PacketLengthType} {s : List UInt8}
    (h : s.length < lengthType.width) : parseOldFormat lengthType s = .error .unexpectedEof := by
  cases lengthType <;> simp [PacketLengthType.width] at h <;>
    simp [parseOldFormat, bind_apply, map_apply, dataConsumeHard_of_lt, readBeU16_of_lt,
      readBeU32_of_lt, h]

theorem parseOldFormat_beBytes {lengthType : PacketLengthType} (hl : lengthType ≠ .indeterminate)
    {n : Nat} (hn : n < 2 ^ (8 * lengthType.width)) (rest : List UInt8) :
    parseOldFormat lengthType (beBytes lengthType.width n ++ rest) =
      .ok (.full (UInt32.ofNat n), rest) := by
  have hv := beValue_beBytes lengthType.width n
  rw [Nat.mod_eq_of_lt hn] at hv
  cases lengthType <;> simp only [PacketLengthType.width] at hn hv ⊢
  · have e : beBytes 1 n = [UInt8.ofNat n] := by
      rw [beBytes, beBytes, List.nil_append, Nat.mod_eq_of_lt (show n < 256 from hn)]
    simp only [parseOldFormat, bind_apply, e, List.singleton_append, dataConsumeHard_one,
      u8_getElem!_singleton, pure_apply]
    congr
    apply UInt32.toNat.inj
    rw [u8_toNat_toUInt32, u8_toNat_ofNat, u32_toNat_ofNat, Nat.mod_eq_of_lt hn,
      Nat.mod_eq_of_lt (by omega)]
  · simp only [parseOldFormat, bind_apply, readBeU16_append (length_beBytes 2 n), hv, pure_apply]
    congr
    apply UInt32.toNat.inj
    rw [u16_toNat_toUInt32, u16_toNat_ofNat, u32_toNat_ofNat, Nat.mod_eq_of_lt hn,
      Nat.mod_eq_of_lt (by omega)]
  · simp only [parseOldFormat, bind_apply, readBeU32_append (length_beBytes 4 n), hv, pure_apply]
  · exact absurd rfl hl

theorem parseOldFormat_of_le {lengthType : PacketLengthType} {s : List UInt8}
    (h : lengthType.width ≤ s.length) :
    ∃ v, parseOldFormat lengthType s = .ok (v, s.drop lengthType.width) := by
  by_cases hl : lengthType = .indeterminate
  · subst hl
    exact ⟨.indeterminate, rfl⟩
  have hlen : (s.take lengthType.width).length = lengthType.width := by simp [h]
  have hv := beValue_lt (s.take lengthType.width)
  rw [hlen] at hv
  refine ⟨.full (UInt32.ofNat (beValue (s.take lengthType.width))), ?_⟩
  conv_lhs => rw [← List.take_append_drop lengthType.width s,
    ← beBytes_beValue _ (s.take lengthType.width) hlen]
  exact parseOldFormat_beBytes hl hv _

/-- `BodyLength::parse_old_format` inverts the old-format encodings: for the one-, two- and
four-octet length types the `w`-octet big-endian encoding of every `n < 2 ^ (8 w)` decodes to
`Full(n)` and leaves the rest, and decoding fails, at the end of the input, exactly when fewer
than `w` octets are left; `Indeterminate` decodes to itself and consumes nothing. -/
theorem parseOldFormat_inverse :
    (∀ lengthType : PacketLengthType, lengthType ≠ .indeterminate →
      ∀ n < 2 ^ (8 * lengthType.width), ∀ rest : List UInt8,
        parseOldFormat lengthType (beBytes lengthType.width n ++ rest) =
          .ok (.full (UInt32.ofNat n), rest)) ∧
    (∀ (lengthType : PacketLengthType) (s : List UInt8),
      (∃ e, parseOldFormat lengthType s = .error e) ↔ s.length < lengthType.width) ∧
    (∀ (lengthType : PacketLengthType) (s : List UInt8) (e : ReadError),
      parseOldFormat lengthType s = .error e → e = .unexpectedEof) ∧
    (∀ s : List UInt8, parseOldFormat .indeterminate s = .ok (.indeterminate, s)) := by
  have short : ∀ (lengthType : PacketLengthType) (s : List UInt8) (e : ReadError),
      parseOldFormat lengthType s = .error e → s.length < lengthType.width := by
    intro lengthType s e h
    by_contra hs
    obtain ⟨v, hv⟩ := parseOldFormat_of_le (Nat.le_of_not_lt hs)
    rw [h] at hv
    cases hv
  refine ⟨fun _ hl _ hn => parseOldFormat_beBytes hl hn, fun lengthType s =>
    ⟨fun ⟨e, h⟩ => short _ _ e h, fun h => ⟨_, parseOldFormat_of_lt h⟩⟩,
    fun lengthType s e h => ?_, fun _ => rfl⟩
  rw [parseOldFormat_of_lt (short _ _ e h)] at h
  cases h
  rfl

/-- The source's four-octet test: two octets are left over. -/
example : parseOldFormat .fourOctets [1, 2, 3, 4, 5, 6] = .ok (.full 16909060, [5, 6]) := rfl

end SequoiaOpenpgp
