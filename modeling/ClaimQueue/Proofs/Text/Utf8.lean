import ClaimQueue.Text.Utf8

/-! What is written in UTF-8 reads back, and bytes that read as a text are what is written for it.
The second byte of a sequence is the delicate one: its bounds depend on the first, and no character
comes near them. -/

namespace ClaimQueue.Text.Utf8

theorem lead_eq (b : UInt8) : lead b =
    if b.toNat < 0x80 then some (0, 0, 0)
    else if b.toNat < 0xC2 then none
    else if b.toNat < 0xE0 then some (1, 0x80, 0xBF)
    else if b.toNat = 0xE0 then some (2, 0xA0, 0xBF)
    else if b.toNat = 0xED then some (2, 0x80, 0x9F)
    else if b.toNat < 0xF0 then some (2, 0x80, 0xBF)
    else if b.toNat = 0xF0 then some (3, 0x90, 0xBF)
    else if b.toNat < 0xF4 then some (3, 0x80, 0xBF)
    else if b.toNat = 0xF4 then some (3, 0x80, 0x8F)
    else none := by
  simp only [lead, UInt8.lt_iff_toNat_lt, beq_iff_eq, ← UInt8.toNat_inj]
  rfl

theorem toNat_byte {n : Nat} (small : n < 256) : (UInt8.ofNat n).toNat = n :=
  UInt8.toNat_ofNat_of_lt' small

/-- A continuation byte with its six bits. -/
def low (m : Nat) : UInt8 := .ofNat (0x80 + m % 64)

theorem toNat_low (m : Nat) : (low m).toNat = 0x80 + m % 64 := toNat_byte (by omega)

theorem tailBits_low (m : Nat) : tailBits (low m) = m % 64 := by
  rw [tailBits, toNat_low]
  omega

theorem isTail_low (m : Nat) : isTail (low m) = true := by
  simp only [isTail, Bool.and_eq_true, decide_eq_true_eq, UInt8.le_iff_toNat_le, toNat_low]
  constructor
  · exact Nat.le_add_right ..
  · have : m % 64 < 64 := Nat.mod_lt _ (by decide)
    show 0x80 + m % 64 ≤ 0xBF
    omega

theorem valid_cases (c : Char) : c.toNat < 0xD800 ∨ 0xDFFF < c.toNat ∧ c.toNat < 0x110000 :=
  c.valid

theorem first?_one {n : Nat} (h : n < 0x80) (rest : List UInt8) :
    first? (.ofNat n) rest = some (Char.ofNat n, 0) := by
  have small : (UInt8.ofNat n).toNat = n := toNat_byte (by omega)
  have none : continuation 0 0 0 rest = [] := by cases rest <;> simp [continuation]
  simp [first?, lead_eq, small, h, none]

theorem first?_two {n : Nat} (h : 0x80 ≤ n) (h' : n < 0x800) (rest : List UInt8) :
    first? (.ofNat (0xC0 + n / 64)) (low n :: rest) = some (Char.ofNat n, 1) := by
  have small : (UInt8.ofNat (0xC0 + n / 64)).toNat = 0xC0 + n / 64 := toNat_byte (by omega)
  have lead : lead (.ofNat (0xC0 + n / 64)) = some (1, 0x80, 0xBF) := by
    rw [lead_eq, small, if_neg (by omega), if_neg (by omega), if_pos (by omega)]
  have tail : continuation 1 0x80 0xBF (low n :: rest) = [low n] := by
    have inside := isTail_low n
    rw [isTail] at inside
    simp [continuation, inside]
  have value : (0xC0 + n / 64) % 2 ^ 5 * 64 + n % 64 = n := by omega
  simp only [first?, lead, tail, small, List.length_singleton, List.foldl_cons, List.foldl_nil,
    tailBits_low]
  exact congrArg (fun m => some (Char.ofNat m, 1)) value

theorem continuation_low {lo hi : UInt8} {m : Nat} (above : lo.toNat ≤ 0x80 + m % 64)
    (below : 0x80 + m % 64 ≤ hi.toNat) (count : Nat) (rest : List UInt8) :
    continuation (count + 1) lo hi (low m :: rest) =
      low m :: (rest.take count).takeWhile isTail := by
  have inside : (decide (lo ≤ low m) && decide (low m ≤ hi)) = true := by
    simp only [Bool.and_eq_true, decide_eq_true_eq, UInt8.le_iff_toNat_le, toNat_low]
    exact ⟨above, below⟩
  simp [continuation, inside]

theorem first?_three {c : Char} (h : 0x800 ≤ c.toNat) (h' : c.toNat < 0x10000)
    (rest : List UInt8) :
    first? (.ofNat (0xE0 + c.toNat / 64 ^ 2)) (low (c.toNat / 64) :: low c.toNat :: rest) =
      some (c, 2) := by
  have valid := valid_cases c
  obtain ⟨n, same⟩ : ∃ n, c.toNat = n := ⟨_, rfl⟩
  have back : Char.ofNat n = c := same ▸ Char.ofNat_toNat c
  rw [same] at h h' valid ⊢
  have small : (UInt8.ofNat (0xE0 + n / 64 ^ 2)).toNat = 0xE0 + n / 4096 := toNat_byte (by omega)
  have lead : ∃ lo hi, lead (.ofNat (0xE0 + n / 64 ^ 2)) = some (2, lo, hi) ∧
      lo.toNat ≤ 0x80 + n / 64 % 64 ∧ 0x80 + n / 64 % 64 ≤ hi.toNat := by
    rw [lead_eq, small, if_neg (by omega), if_neg (by omega), if_neg (by omega)]
    by_cases first : n < 0x1000
    · refine ⟨0xA0, 0xBF, by rw [if_pos (by omega)], ?_, ?_⟩
      · show 0xA0 ≤ _
        omega
      · show _ ≤ 0xBF
        omega
    · rw [if_neg (by omega)]
      by_cases last : n / 4096 = 13
      · refine ⟨0x80, 0x9F, by rw [if_pos (by omega)], ?_, ?_⟩
        · show 0x80 ≤ _
          omega
        · show _ ≤ 0x9F
          omega
      · refine ⟨0x80, 0xBF, by rw [if_neg (by omega), if_pos (by omega)], ?_, ?_⟩
        · show 0x80 ≤ _
          omega
        · show _ ≤ 0xBF
          omega
  obtain ⟨lo, hi, lead, above, below⟩ := lead
  have tail := continuation_low above below 1 (low n :: rest)
  have value : ((0xE0 + n / 4096) % 2 ^ 4 * 64 + n / 64 % 64) * 64 + n % 64 = n := by omega
  simp only [first?, lead, tail, small, List.take_succ_cons, List.take_zero,
    List.takeWhile_cons, isTail_low, List.takeWhile_nil, if_true, List.length_cons, List.length_nil,
    List.foldl_cons, List.foldl_nil, tailBits_low]
  exact congrArg (fun c => some (c, 2)) ((congrArg Char.ofNat value).trans back)

theorem first?_four {c : Char} (h : 0x10000 ≤ c.toNat) (rest : List UInt8) :
    first? (.ofNat (0xF0 + c.toNat / 64 ^ 3))
      (low (c.toNat / 64 ^ 2) :: low (c.toNat / 64) :: low c.toNat :: rest) = some (c, 3) := by
  have valid := valid_cases c
  obtain ⟨n, same⟩ : ∃ n, c.toNat = n := ⟨_, rfl⟩
  have back : Char.ofNat n = c := same ▸ Char.ofNat_toNat c
  rw [same] at h valid ⊢
  have small : (UInt8.ofNat (0xF0 + n / 64 ^ 3)).toNat = 0xF0 + n / 262144 := toNat_byte (by omega)
  have lead : ∃ lo hi, lead (.ofNat (0xF0 + n / 64 ^ 3)) = some (3, lo, hi) ∧
      lo.toNat ≤ 0x80 + n / 64 ^ 2 % 64 ∧ 0x80 + n / 64 ^ 2 % 64 ≤ hi.toNat := by
    rw [lead_eq, small, if_neg (by omega), if_neg (by omega), if_neg (by omega),
      if_neg (by omega), if_neg (by omega), if_neg (by omega)]
    by_cases first : n < 0x40000
    · refine ⟨0x90, 0xBF, by rw [if_pos (by omega)], ?_, ?_⟩
      · show 0x90 ≤ _
        omega
      · show _ ≤ 0xBF
        omega
    · rw [if_neg (by omega)]
      by_cases last : n < 0x100000
      · refine ⟨0x80, 0xBF, by rw [if_pos (by omega)], ?_, ?_⟩
        · show 0x80 ≤ _
          omega
        · show _ ≤ 0xBF
          omega
      · refine ⟨0x80, 0x8F, by rw [if_neg (by omega), if_pos (by omega)], ?_, ?_⟩
        · show 0x80 ≤ _
          omega
        · show _ ≤ 0x8F
          omega
  obtain ⟨lo, hi, lead, above, below⟩ := lead
  have tail := continuation_low above below 2 (low (n / 64) :: low n :: rest)
  have value : (((0xF0 + n / 262144) % 2 ^ 3 * 64 + n / 64 ^ 2 % 64) * 64 + n / 64 % 64) * 64 +
      n % 64 = n := by omega
  simp only [first?, lead, tail, small, List.take_succ_cons, List.take_zero,
    List.takeWhile_cons, isTail_low, List.takeWhile_nil, if_true, List.length_cons, List.length_nil,
    List.foldl_cons, List.foldl_nil, tailBits_low]
  exact congrArg (fun c => some (c, 3)) ((congrArg Char.ofNat value).trans back)

theorem encodeChar_eq (c : Char) : encodeChar c =
    if c.toNat < 0x80 then [.ofNat c.toNat]
    else if c.toNat < 0x800 then [.ofNat (0xC0 + c.toNat / 64), low c.toNat]
    else if c.toNat < 0x10000 then
      [.ofNat (0xE0 + c.toNat / 64 ^ 2), low (c.toNat / 64), low c.toNat]
    else [.ofNat (0xF0 + c.toNat / 64 ^ 3), low (c.toNat / 64 ^ 2), low (c.toNat / 64),
      low c.toNat] := by
  simp [encodeChar, low]

/-- What is written for a character begins with a byte that leads just it. -/
theorem first?_encodeChar (c : Char) : ∃ b more, encodeChar c = b :: more ∧
    ∀ rest, first? b (more ++ rest) = some (c, more.length) := by
  rw [encodeChar_eq]
  split
  · rename_i one
    refine ⟨_, [], rfl, fun rest => ?_⟩
    rw [List.nil_append, first?_one one, Char.ofNat_toNat, List.length_nil]
  · rename_i above
    split
    · rename_i two
      refine ⟨_, _, rfl, fun rest => (first?_two (Nat.le_of_not_lt above) two rest).trans ?_⟩
      rw [Char.ofNat_toNat]
      rfl
    · rename_i above
      split
      · rename_i three
        exact ⟨_, _, rfl, first?_three (Nat.le_of_not_lt above) three⟩
      · rename_i above
        exact ⟨_, _, rfl, first?_four (Nat.le_of_not_lt above)⟩

theorem unitsAfter_append (more rest : List UInt8) :
    unitsAfter more.length (more ++ rest) = unitsAfter 0 rest := by
  induction more with
  | nil => rfl
  | cons b more ih => exact ih

theorem unitsAfter_encodeChar (c : Char) (rest : List UInt8) :
    unitsAfter 0 (encodeChar c ++ rest) = some c :: unitsAfter 0 rest := by
  obtain ⟨b, more, written, read⟩ := first?_encodeChar c
  rw [written, List.cons_append, unitsAfter]
  simp only [read, unitsAfter_append]

theorem units_encode (cs : List Char) : units (encode cs) = cs.map some := by
  unfold units encode
  induction cs with
  | nil => rfl
  | cons c cs ih => rw [List.flatMap_cons, unitsAfter_encodeChar, ih, List.map_cons]

theorem lossyAfter_append (more rest : List UInt8) :
    lossyAfter more.length (more ++ rest) = lossyAfter 0 rest := by
  induction more with
  | nil => rfl
  | cons b more ih => exact ih

/-- Nothing of a text is lost, either. -/
theorem lossy_encode (cs : List Char) : lossy (encode cs) = cs := by
  unfold lossy encode
  induction cs with
  | nil => rfl
  | cons c cs ih =>
    obtain ⟨b, more, written, read⟩ := first?_encodeChar c
    rw [List.flatMap_cons, written, List.cons_append, lossyAfter]
    simp only [read, lossyAfter_append, ih]

theorem units_bytes (s : String) : units (bytes s) = s.toList.map some := units_encode s.toList

theorem mapM_some {α : Type} (as : List α) : (as.map some).mapM id = some as := by
  induction as with
  | nil => rfl
  | cons a as ih => simp [ih]

theorem text?_bytes (s : String) : text? (bytes s) = some s := by
  rw [text?, decode?, units_bytes, mapM_some, Option.map_some, String.ofList_toList]

theorem bytes_injective {s t : String} (same : bytes s = bytes t) : s = t := by
  have read := congrArg text? same
  rw [text?_bytes, text?_bytes] at read
  exact Option.some.inj read

/-! What was read is written back as it was. -/

theorem toNat_ofNat {n : Nat} (valid : n < 0xD800 ∨ 0xDFFF < n ∧ n < 0x110000) :
    (Char.ofNat n).toNat = n := by
  have scalar : n.isValidChar := valid
  rw [Char.ofNat, dif_pos scalar]
  rfl

theorem ofNat_eq (b : UInt8) {m : Nat} (same : m = b.toNat) : UInt8.ofNat m = b := by
  rw [same, UInt8.ofNat_toNat]

/-- A complete sequence: its second byte lies within the bounds, and the others continue it. -/
theorem continuation_of_full {count : Nat} {lo hi : UInt8} {rest : List UInt8}
    (full : ¬ (continuation (count + 1) lo hi rest).length < count + 1) :
    ∃ t ts more, rest = t :: ts ++ more ∧ continuation (count + 1) lo hi rest = t :: ts ∧
      ts.length = count ∧ lo.toNat ≤ t.toNat ∧ t.toNat ≤ hi.toNat ∧ ∀ u ∈ ts, isTail u = true := by
  cases rest with
  | nil => exact (full (Nat.succ_pos count)).elim
  | cons t rest =>
    rw [continuation, if_neg (Nat.succ_ne_zero count), Nat.add_sub_cancel] at full ⊢
    split at full
    · next inside =>
      have below := List.length_take_le count rest
      have kept := (List.takeWhile_prefix isTail (l := rest.take count))
      have above : count ≤ ((rest.take count).takeWhile isTail).length := by
        rw [List.length_cons] at full
        omega
      have all := kept.eq_of_length_le (Nat.le_trans below above)
      rw [if_pos inside, all]
      rw [all] at above
      simp only [Bool.and_eq_true, decide_eq_true_eq, UInt8.le_iff_toNat_le] at inside
      refine ⟨t, rest.take count, rest.drop count, ?_, rfl, Nat.le_antisymm below above, inside.1,
        inside.2, fun u mem => ?_⟩
      · rw [List.cons_append, List.take_append_drop]
      · rw [← all] at mem
        exact List.all_eq_true.mp List.all_takeWhile u mem
    · exact (full (Nat.succ_pos count)).elim

/-- Between which bounds the second byte lies. -/
inductive Leads (b lo hi : Nat) : Nat → Prop
  | one (within : b < 0x80) : Leads b lo hi 0
  | two (above : 0xC2 ≤ b) (below : b < 0xE0) : Leads b lo hi 1
  | three (above : 0xE0 ≤ b) (below : b < 0xF0) (long : b = 0xE0 → 0xA0 ≤ lo)
      (scalar : b = 0xED → hi ≤ 0x9F) : Leads b lo hi 2
  | four (above : 0xF0 ≤ b) (below : b ≤ 0xF4) (long : b = 0xF0 → 0x90 ≤ lo)
      (last : b = 0xF4 → hi ≤ 0x8F) : Leads b lo hi 3

theorem leads_of_lead {b lo hi : UInt8} {count : Nat} (h : lead b = some (count, lo, hi)) :
    Leads b.toNat lo.toNat hi.toNat count ∧ (count ≠ 0 → 0x80 ≤ lo.toNat ∧ hi.toNat ≤ 0xBF) := by
  rw [lead_eq] at h
  split at h
  · cases h
    exact ⟨.one ‹_›, fun none => (none rfl).elim⟩
  split at h
  · cases h
  split at h
  · cases h
    exact ⟨.two (by omega) ‹_›, fun _ => by decide⟩
  split at h
  · cases h
    exact ⟨.three (by omega) (by omega) (fun _ => by decide) (by omega), fun _ => by decide⟩
  split at h
  · cases h
    exact ⟨.three (by omega) (by omega) (by omega) (fun _ => by decide), fun _ => by decide⟩
  split at h
  · cases h
    exact ⟨.three (by omega) ‹_› (by omega) (by omega), fun _ => by decide⟩
  split at h
  · cases h
    exact ⟨.four (by omega) (by omega) (fun _ => by decide) (by omega), fun _ => by decide⟩
  split at h
  · cases h
    exact ⟨.four (by omega) (by omega) (by omega) (by omega), fun _ => by decide⟩
  split at h
  · cases h
    exact ⟨.four (by omega) (by omega) (by omega) (fun _ => by decide), fun _ => by decide⟩
  · cases h

theorem bounds_of_isTail {t : UInt8} (tail : isTail t = true) :
    0x80 ≤ t.toNat ∧ t.toNat ≤ 0xBF := by
  simp only [isTail, Bool.and_eq_true, decide_eq_true_eq, UInt8.le_iff_toNat_le] at tail
  exact tail

theorem low_eq {t : UInt8} {m : Nat} (above : 0x80 ≤ t.toNat) (below : t.toNat ≤ 0xBF)
    (same : m % 64 = tailBits t) : low m = t := by
  rw [tailBits] at same
  rw [← UInt8.toNat_inj, toNat_low]
  omega

section

variable {b t u v : UInt8} {lo hi : Nat}

theorem encodeChar_two (above : 0xC2 ≤ b.toNat) (below : b.toNat < 0xE0) (ht : 0x80 ≤ t.toNat)
    (ht' : t.toNat ≤ 0xBF) :
    encodeChar (.ofNat (b.toNat % 2 ^ 5 * 64 + tailBits t)) = [b, t] := by
  have six : tailBits t < 64 := Nat.mod_lt _ (by decide)
  rw [encodeChar_eq, toNat_ofNat (by omega), if_neg (by omega), if_pos (by omega),
    low_eq ht ht' (by omega), ofNat_eq b (by omega)]

theorem encodeChar_three (leads : Leads b.toNat lo hi 2) (ht : 0x80 ≤ t.toNat)
    (ht' : t.toNat ≤ 0xBF) (inside : lo ≤ t.toNat) (inside' : t.toNat ≤ hi) (hu : isTail u = true) :
    encodeChar (.ofNat ((b.toNat % 2 ^ 4 * 64 + tailBits t) * 64 + tailBits u)) = [b, t, u] := by
  obtain ⟨hu, hu'⟩ := bounds_of_isTail hu
  have six : tailBits u < 64 := Nat.mod_lt _ (by decide)
  cases leads with
  | three above below long scalar =>
    have six' : tailBits t = t.toNat - 0x80 := by rw [tailBits]; omega
    rw [encodeChar_eq, toNat_ofNat (by omega), if_neg (by omega), if_neg (by omega),
      if_pos (by omega), low_eq ht ht' (by omega), low_eq hu hu' (by omega), ofNat_eq b (by omega)]

theorem encodeChar_four (leads : Leads b.toNat lo hi 3) (ht : 0x80 ≤ t.toNat) (ht' : t.toNat ≤ 0xBF)
    (inside : lo ≤ t.toNat) (inside' : t.toNat ≤ hi) (hu : isTail u = true) (hv : isTail v = true) :
    encodeChar (.ofNat (((b.toNat % 2 ^ 3 * 64 + tailBits t) * 64 + tailBits u) * 64 + tailBits v)) =
      [b, t, u, v] := by
  obtain ⟨hu, hu'⟩ := bounds_of_isTail hu
  obtain ⟨hv, hv'⟩ := bounds_of_isTail hv
  have six : tailBits u < 64 := Nat.mod_lt _ (by decide)
  have six' : tailBits v < 64 := Nat.mod_lt _ (by decide)
  cases leads with
  | four above below long last =>
    have six'' : tailBits t = t.toNat - 0x80 := by rw [tailBits]; omega
    rw [encodeChar_eq, toNat_ofNat (by omega), if_neg (by omega), if_neg (by omega),
      if_neg (by omega), low_eq ht ht' (by omega), low_eq hu hu' (by omega),
      low_eq hv hv' (by omega), ofNat_eq b (by omega)]

end

/-- What reads as a character is written for it. -/
theorem encodeChar_of_first? {b : UInt8} {rest : List UInt8} {c : Char} {n : Nat}
    (h : first? b rest = some (c, n)) : n ≤ rest.length ∧ encodeChar c = b :: rest.take n := by
  rw [first?] at h
  split at h
  · cases h
  · next count lo hi lead =>
    obtain ⟨leads, bounds⟩ := leads_of_lead lead
    simp only at h
    split at h
    · cases h
    · next full =>
      cases count with
      | zero =>
        cases leads with
        | one within =>
          have none : continuation 0 lo hi rest = [] := by cases rest <;> simp [continuation]
          rw [none, if_pos rfl] at h
          cases h
          refine ⟨Nat.zero_le _, ?_⟩
          rw [List.foldl_nil, encodeChar_eq, toNat_ofNat (by omega), if_pos within, ofNat_eq b rfl]
          rfl
      | succ count =>
        obtain ⟨t, ts, more, rfl, all, long, inside, inside', tails⟩ := continuation_of_full full
        obtain ⟨above, below⟩ := bounds (Nat.succ_ne_zero count)
        rw [if_neg (Nat.succ_ne_zero count), all] at h
        have ht := Nat.le_trans above inside
        have ht' := Nat.le_trans inside' below
        cases leads with
        | two above below =>
          rw [List.length_eq_zero_iff.mp long] at h ⊢
          cases h
          exact ⟨Nat.succ_le_succ (Nat.zero_le _), encodeChar_two above below ht ht'⟩
        | three above below least most =>
          obtain ⟨u, rfl⟩ := List.length_eq_one_iff.mp long
          cases h
          exact ⟨Nat.le_add_left 2 _, encodeChar_three (.three above below least most) ht ht'
            inside inside' (tails u List.mem_cons_self)⟩
        | four above below least most =>
          match ts, long with
          | [u, v], _ =>
            cases h
            exact ⟨Nat.le_add_left 3 _, encodeChar_four (.four above below least most) ht ht'
              inside inside' (tails u List.mem_cons_self)
              (tails v (List.mem_cons_of_mem _ List.mem_cons_self))⟩

theorem unitsAfter_eq_drop (n : Nat) (bytes : List UInt8) :
    unitsAfter n bytes = unitsAfter 0 (bytes.drop n) := by
  induction bytes generalizing n with
  | nil => rw [List.drop_nil, unitsAfter, unitsAfter]
  | cons b bytes ih =>
    cases n with
    | zero => rfl
    | succ n => exact ih n

theorem encode_of_unitsAfter {bytes : List UInt8} {cs : List Char}
    (read : unitsAfter 0 bytes = cs.map some) : encode cs = bytes := by
  -- Each character takes at least one byte off the front.
  induction cs generalizing bytes with
  | nil =>
    cases bytes with
    | nil => rfl
    | cons b rest =>
      rw [unitsAfter] at read
      split at read <;> cases read
  | cons c cs ih =>
    cases bytes with
    | nil => cases read
    | cons b rest =>
      rw [unitsAfter] at read
      split at read
      · cases read
      · next d n first =>
        obtain ⟨same, more⟩ := List.cons.inj read
        cases same
        obtain ⟨-, front⟩ := encodeChar_of_first? first
        have back := ih ((unitsAfter_eq_drop n rest).symm.trans more)
        rw [encode] at back ⊢
        rw [List.flatMap_cons, front, back, List.cons_append, List.take_append_drop]

theorem mapM_eq_some {α : Type} {os : List (Option α)} {as : List α} (h : os.mapM id = some as) :
    os = as.map some := by
  induction os generalizing as with
  | nil =>
    cases h
    rfl
  | cons o os ih =>
    rw [List.mapM_cons] at h
    cases o with
    | none => cases h
    | some a =>
      cases more : os.mapM id with
      | none =>
        rw [more] at h
        cases h
      | some rest =>
        rw [more] at h
        cases h
        rw [ih more, List.map_cons]

/-- Bytes that read as a text are the bytes of that text. -/
theorem bytes_of_text? {b : List UInt8} {s : String} (h : text? b = some s) : bytes s = b := by
  rw [text?] at h
  obtain ⟨cs, read, rfl⟩ := Option.map_eq_some_iff.mp h
  rw [bytes, String.toList_ofList]
  exact encode_of_unitsAfter (mapM_eq_some read)

end ClaimQueue.Text.Utf8
