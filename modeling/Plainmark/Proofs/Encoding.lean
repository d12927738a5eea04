import Plainmark.Text.Utf8

namespace Plainmark.Text.Utf8

theorem byte_toNat {value : Nat} (small : value < 256) : (byte value).toNat = value := by
  simp [byte,Nat.mod_eq_of_lt small]

theorem byte_eq {value : Nat} {b : UInt8} (same : value = b.toNat) : byte value = b := by
  rw [same]
  exact UInt8.ofNat_toNat

theorem code_valid (c : Char) : c.toNat < 0x110000 ∧ (c.toNat < 0xD800 ∨ 0xDFFF < c.toNat) := by
  have valid : c.toNat.isValidChar := c.valid
  simp only [Nat.isValidChar] at valid
  omega

theorem follow_byte {code taken bits low high : Nat} {ranges : List (Nat × Nat)} (six : bits < 64)
    (above : low ≤ 0x80 + bits) (below : 0x80 + bits ≤ high) (rest : Bytes) :
    follow code taken ((low,high) :: ranges) (byte (0x80 + bits) :: rest) =
      follow (code * 64 + bits) (taken + 1) ranges rest := by
  have value : (byte (0x80 + bits)).toNat = 0x80 + bits := byte_toNat (by omega)
  rw [follow,value,if_pos ⟨above,below⟩,Nat.add_sub_cancel_left]

theorem follow_end {code taken whole : Nat} {bytes rest : Bytes}
    (read : follow code taken [] bytes = .ok (whole,rest)) : code = whole ∧ bytes = rest :=
  Prod.mk.inj (Except.ok.inj read)

theorem follow_split {code taken : Nat} {range : Nat × Nat} {ranges : List (Nat × Nat)}
    {bytes : Bytes} {result : Nat × Bytes}
    (read : follow code taken (range :: ranges) bytes = .ok result) :
    ∃ b rest, bytes = b :: rest ∧ range.1 ≤ b.toNat ∧ b.toNat ≤ range.2 ∧
      follow (code * 64 + (b.toNat - 0x80)) (taken + 1) ranges rest = .ok result := by
  cases bytes with
  | nil => cases read
  | cons b rest =>
    rw [follow] at read
    split at read
    · rename_i inside
      exact ⟨b,rest,rfl,inside.1,inside.2,read⟩
    · cases read

def Completes (first : Nat) (bytes : Bytes) (code : Nat) : Prop :=
  ∃ lead, lead? first = some lead ∧
    ∀ rest, follow lead.bits 1 lead.follow (bytes ++ rest) = .ok (code,rest)

theorem one_completes {code : Nat} (small : code < 0x80) : Completes code [] code :=
  ⟨⟨code,[]⟩,by rw [lead?,if_pos small],fun rest => rfl⟩

theorem two_completes {code : Nat} (above : 0x80 ≤ code) (below : code < 0x800) :
    Completes (0xC0 + code / 64) [byte (0x80 + code % 64)] code := by
  refine ⟨⟨code / 64,[(0x80,0xBF)]⟩,?_,fun rest => ?_⟩
  · rw [lead?,if_neg (by omega),if_neg (by omega),if_pos (by omega),Nat.add_sub_cancel_left]
  · have whole : code / 64 * 64 + code % 64 = code := by omega
    rw [List.cons_append,follow_byte (by omega) (by omega) (by omega),whole]
    rfl

theorem three_completes {code : Nat} (above : 0x800 ≤ code) (below : code < 0x10000)
    (surrogate : code < 0xD800 ∨ 0xDFFF < code) : Completes (0xE0 + code / 4096)
      [byte (0x80 + code / 64 % 64),byte (0x80 + code % 64)] code := by
  let second := if 0xE0 + code / 4096 = 0xE0 then (0xA0,0xBF)
    else if 0xE0 + code / 4096 = 0xED then (0x80,0x9F) else (0x80,0xBF)
  have range : second.1 ≤ 0x80 + code / 64 % 64 ∧ 0x80 + code / 64 % 64 ≤ second.2 := by
    unfold second
    split
    · omega
    · split <;> omega
  refine ⟨⟨code / 4096,[second,(0x80,0xBF)]⟩,?_,fun rest => ?_⟩
  · rw [lead?,if_neg (by omega),if_neg (by omega),if_neg (by omega),if_pos (by omega),
      Nat.add_sub_cancel_left]
  · have whole : (code / 4096 * 64 + code / 64 % 64) * 64 + code % 64 = code := by omega
    rw [List.cons_append,List.cons_append,follow_byte (by omega) range.1 range.2,
      follow_byte (by omega) (by omega) (by omega),whole]
    rfl

theorem four_completes {code : Nat} (above : 0x10000 ≤ code) (below : code < 0x110000) :
    Completes (0xF0 + code / 262144)
      [byte (0x80 + code / 4096 % 64),byte (0x80 + code / 64 % 64),byte (0x80 + code % 64)]
        code := by
  let second := if 0xF0 + code / 262144 = 0xF0 then (0x90,0xBF)
    else if 0xF0 + code / 262144 = 0xF4 then (0x80,0x8F) else (0x80,0xBF)
  have range : second.1 ≤ 0x80 + code / 4096 % 64 ∧ 0x80 + code / 4096 % 64 ≤ second.2 := by
    unfold second
    split
    · omega
    · split <;> omega
  refine ⟨⟨code / 262144,[second,(0x80,0xBF),(0x80,0xBF)]⟩,?_,fun rest => ?_⟩
  · rw [lead?,if_neg (by omega),if_neg (by omega),if_neg (by omega),if_neg (by omega),
      if_pos (by omega),Nat.add_sub_cancel_left]
  · have whole : ((code / 262144 * 64 + code / 4096 % 64) * 64 + code / 64 % 64) * 64 +
        code % 64 = code := by omega
    rw [List.cons_append,List.cons_append,List.cons_append,
      follow_byte (by omega) range.1 range.2,follow_byte (by omega) (by omega) (by omega),
      follow_byte (by omega) (by omega) (by omega),whole]
    rfl

theorem encodeChar_completes (c : Char) :
    ∃ first bytes, encodeChar c = first :: bytes ∧ Completes first.toNat bytes c.toNat := by
  obtain ⟨last,surrogate⟩ := code_valid c
  unfold encodeChar
  generalize c.toNat = code at last surrogate
  dsimp only
  split
  · rename_i one
    refine ⟨_,_,rfl,?_⟩
    rw [byte_toNat (by omega)]
    exact one_completes one
  · split
    · rename_i two
      refine ⟨_,_,rfl,?_⟩
      rw [byte_toNat (by omega)]
      exact two_completes (by omega) two
    · split
      · rename_i three
        refine ⟨_,_,rfl,?_⟩
        rw [byte_toNat (by omega)]
        exact three_completes (by omega) three surrogate
      · refine ⟨_,_,rfl,?_⟩
        rw [byte_toNat (by omega)]
        exact four_completes (by omega) last

theorem char_of_code (code : Nat) (last : code < 0x110000)
    (surrogate : code < 0xD800 ∨ 0xDFFF < code) : ∃ c : Char, c.toNat = code := by
  have valid : code.isValidChar := by
    simp only [Nat.isValidChar]
    omega
  exact ⟨Char.ofNatAux code valid,rfl⟩

-- Which bytes follow a first one. The range of the second byte is what keeps
-- second spellings, surrogates, and codes that are too large away.
theorem lead?_cases {first : Nat} {lead : Lead} (announced : lead? first = some lead) :
    (first < 0x80 ∧ lead = ⟨first,[]⟩) ∨
    (0xC2 ≤ first ∧ first < 0xE0 ∧ lead = ⟨first - 0xC0,[(0x80,0xBF)]⟩) ∨
    (∃ low high, 0xE0 ≤ first ∧ first < 0xF0 ∧ lead = ⟨first - 0xE0,[(low,high),(0x80,0xBF)]⟩ ∧
      0x80 ≤ low ∧ high ≤ 0xBF ∧ (first = 0xE0 → low = 0xA0) ∧ (first = 0xED → high = 0x9F)) ∨
    (∃ low high, 0xF0 ≤ first ∧ first < 0xF5 ∧
      lead = ⟨first - 0xF0,[(low,high),(0x80,0xBF),(0x80,0xBF)]⟩ ∧
        0x80 ≤ low ∧ high ≤ 0xBF ∧ (first = 0xF0 → low = 0x90) ∧ (first = 0xF4 → high = 0x8F)) := by
  unfold lead? at announced
  split at announced
  · rename_i one
    exact .inl ⟨one,(Option.some.inj announced).symm⟩
  · split at announced
    · cases announced
    · split at announced
      · exact .inr (.inl ⟨by omega,by omega,(Option.some.inj announced).symm⟩)
      · split at announced
        · have shape := (Option.some.inj announced).symm
          right; right; left
          split at shape
          · exact ⟨0xA0,0xBF,by omega,by omega,shape,by omega,by omega,by omega,by omega⟩
          · split at shape
            · exact ⟨0x80,0x9F,by omega,by omega,shape,by omega,by omega,by omega,by omega⟩
            · exact ⟨0x80,0xBF,by omega,by omega,shape,by omega,by omega,by omega,by omega⟩
        · split at announced
          · have shape := (Option.some.inj announced).symm
            right; right; right
            split at shape
            · exact ⟨0x90,0xBF,by omega,by omega,shape,by omega,by omega,by omega,by omega⟩
            · split at shape
              · exact ⟨0x80,0x8F,by omega,by omega,shape,by omega,by omega,by omega,by omega⟩
              · exact ⟨0x80,0xBF,by omega,by omega,shape,by omega,by omega,by omega,by omega⟩
          · cases announced

theorem one_spelled {first : UInt8} (small : first.toNat < 0x80) :
    ∃ c : Char, c.toNat = first.toNat ∧ [first] = encodeChar c := by
  obtain ⟨c,same⟩ := char_of_code first.toNat (by omega) (by omega)
  refine ⟨c,same,?_⟩
  rw [encodeChar,same,if_pos small,byte_eq rfl]

theorem two_spelled {first b : UInt8} (above : 0xC2 ≤ first.toNat) (below : first.toNat < 0xE0)
    (low : 0x80 ≤ b.toNat) (high : b.toNat ≤ 0xBF) :
    ∃ c : Char, c.toNat = (first.toNat - 0xC0) * 64 + (b.toNat - 0x80) ∧
      [first,b] = encodeChar c := by
  obtain ⟨c,same⟩ := char_of_code ((first.toNat - 0xC0) * 64 + (b.toNat - 0x80))
    (by omega) (by omega)
  refine ⟨c,same,?_⟩
  rw [encodeChar,same,if_neg (by omega),if_pos (by omega),
    byte_eq (b := first) (by omega),byte_eq (b := b) (by omega)]

theorem three_spelled {first b d : UInt8} (above : 0xE0 ≤ first.toNat) (below : first.toNat < 0xF0)
    (low : 0x80 ≤ b.toNat) (high : b.toNat ≤ 0xBF) (least : first.toNat = 0xE0 → 0xA0 ≤ b.toNat)
    (most : first.toNat = 0xED → b.toNat ≤ 0x9F) (lowNext : 0x80 ≤ d.toNat)
    (highNext : d.toNat ≤ 0xBF) : ∃ c : Char,
      c.toNat = ((first.toNat - 0xE0) * 64 + (b.toNat - 0x80)) * 64 + (d.toNat - 0x80) ∧
        [first,b,d] = encodeChar c := by
  obtain ⟨c,same⟩ := char_of_code
    (((first.toNat - 0xE0) * 64 + (b.toNat - 0x80)) * 64 + (d.toNat - 0x80)) (by omega) (by omega)
  refine ⟨c,same,?_⟩
  rw [encodeChar,same,if_neg (by omega),if_neg (by omega),if_pos (by omega),
    byte_eq (b := first) (by omega),byte_eq (b := b) (by omega),byte_eq (b := d) (by omega)]

theorem four_spelled {first b d e : UInt8} (above : 0xF0 ≤ first.toNat)
    (below : first.toNat < 0xF5) (low : 0x80 ≤ b.toNat) (high : b.toNat ≤ 0xBF)
    (least : first.toNat = 0xF0 → 0x90 ≤ b.toNat) (most : first.toNat = 0xF4 → b.toNat ≤ 0x8F)
    (lowNext : 0x80 ≤ d.toNat) (highNext : d.toNat ≤ 0xBF) (lowLast : 0x80 ≤ e.toNat)
    (highLast : e.toNat ≤ 0xBF) : ∃ c : Char,
      c.toNat = (((first.toNat - 0xF0) * 64 + (b.toNat - 0x80)) * 64 + (d.toNat - 0x80)) * 64 +
        (e.toNat - 0x80) ∧ [first,b,d,e] = encodeChar c := by
  obtain ⟨c,same⟩ := char_of_code
    ((((first.toNat - 0xF0) * 64 + (b.toNat - 0x80)) * 64 + (d.toNat - 0x80)) * 64 +
      (e.toNat - 0x80)) (by omega) (by omega)
  refine ⟨c,same,?_⟩
  rw [encodeChar,same,if_neg (by omega),if_neg (by omega),if_neg (by omega),
    byte_eq (b := first) (by omega),byte_eq (b := b) (by omega),byte_eq (b := d) (by omega),
    byte_eq (b := e) (by omega)]

theorem encodeChar_of_follow {first : UInt8} {bytes rest : Bytes} {lead : Lead} {code : Nat}
    (announced : lead? first.toNat = some lead)
    (read : follow lead.bits 1 lead.follow bytes = .ok (code,rest)) :
    ∃ c : Char, c.toNat = code ∧ first :: bytes = encodeChar c ++ rest := by
  rcases lead?_cases announced with ⟨small,rfl⟩ | ⟨above,below,rfl⟩ |
    ⟨low,high,above,below,rfl,least,most,longer,surrogate⟩ |
    ⟨low,high,above,below,rfl,least,most,longer,large⟩
  · obtain ⟨rfl,rfl⟩ := follow_end read
    obtain ⟨c,same,spelled⟩ := one_spelled small
    exact ⟨c,same,by rw [← spelled]; rfl⟩
  · obtain ⟨b,_,rfl,lower,upper,ended⟩ := follow_split read
    obtain ⟨rfl,rfl⟩ := follow_end ended
    obtain ⟨c,same,spelled⟩ := two_spelled above below lower upper
    exact ⟨c,same,by rw [← spelled]; rfl⟩
  · obtain ⟨b,_,rfl,lower,upper,more⟩ := follow_split read
    obtain ⟨d,_,rfl,lowerNext,upperNext,ended⟩ := follow_split more
    obtain ⟨rfl,rfl⟩ := follow_end ended
    obtain ⟨c,same,spelled⟩ := three_spelled above below (Nat.le_trans least lower)
      (Nat.le_trans upper most) (fun start => longer start ▸ lower)
      (fun start => surrogate start ▸ upper) lowerNext upperNext
    exact ⟨c,same,by rw [← spelled]; rfl⟩
  · obtain ⟨b,_,rfl,lower,upper,more⟩ := follow_split read
    obtain ⟨d,_,rfl,lowerNext,upperNext,last⟩ := follow_split more
    obtain ⟨e,_,rfl,lowerLast,upperLast,ended⟩ := follow_split last
    obtain ⟨rfl,rfl⟩ := follow_end ended
    obtain ⟨c,same,spelled⟩ := four_spelled above below (Nat.le_trans least lower)
      (Nat.le_trans upper most) (fun start => longer start ▸ lower)
      (fun start => large start ▸ upper) lowerNext upperNext lowerLast upperLast
    exact ⟨c,same,by rw [← spelled]; rfl⟩

theorem decodeFrom_encodeChar (position : Nat) (done : Text) (c : Char) (rest : Bytes) :
    ∃ next, decodeFrom position done (encodeChar c ++ rest) = decodeFrom next (c :: done) rest := by
  obtain ⟨first,bytes,shape,lead,announced,follows⟩ := encodeChar_completes c
  rw [shape,List.cons_append,decodeFrom,announced]
  dsimp only
  split
  · rename_i read
    rw [follows rest] at read
    obtain ⟨rfl,rfl⟩ := Prod.mk.inj (Except.ok.inj read)
    exact ⟨_,by rw [Char.ofNat_toNat]⟩
  · rename_i read
    rw [follows rest] at read
    cases read

theorem decodeFrom_encode (position : Nat) (done text : Text) :
    decodeFrom position done (encode text) = .ok (done.reverse ++ text) := by
  induction text generalizing position done with
  | nil => simp [encode,decodeFrom]
  | cons c text ih =>
    obtain ⟨next,step⟩ := decodeFrom_encodeChar position done c (encode text)
    have shape : encode (c :: text) = encodeChar c ++ encode text := rfl
    rw [shape,step,ih]
    simp

theorem encode_of_decodeFrom {position : Nat} {done text : Text} {bytes : Bytes}
    (read : decodeFrom position done bytes = .ok text) :
    ∃ later, text = done.reverse ++ later ∧ bytes = encode later := by
  induction size : bytes.length using Nat.strongRecOn generalizing position done bytes with
  | ind n ih =>
    subst size
    cases bytes with
    | nil =>
      rw [decodeFrom] at read
      cases read
      exact ⟨[],by simp,rfl⟩
    | cons first bytes =>
      rw [decodeFrom] at read
      split at read
      · cases read
      · rename_i lead announced
        split at read
        · rename_i code rest followed
          obtain ⟨c,rfl,shape⟩ := encodeChar_of_follow announced followed
          have shorter := follow_shorter followed
          obtain ⟨later,rfl,rfl⟩ := ih _ (Nat.lt_succ_of_le shorter) read rfl
          rw [Char.ofNat_toNat]
          exact ⟨c :: later,by simp,shape⟩
        · cases read

theorem decode_eq_ok_iff {bytes : Bytes} {text : Text} :
    decode bytes = .ok text ↔ bytes = encode text := by
  constructor
  · intro read
    obtain ⟨later,rfl,rfl⟩ := encode_of_decodeFrom read
    simp
  · rintro rfl
    exact decodeFrom_encode 0 [] text

end Plainmark.Text.Utf8
