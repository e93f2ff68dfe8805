import EnkiOs.Libc.Copy
import EnkiOs.Syscall.Basic

/-!
# パスの組み立て

`syscall_6_proc_start` と `syscall_7_system` が、配列 `path` に `"0:/"` とプログラムの名前を書くところ。先頭の三文字の後から書くので、
配列に収まるのは、104 文字までの名前である。
-/

namespace EnkiOs
open Machine Fuel

/-- `literal` は `"0:/"` のアドレスである。 -/
def procStartPath (fuel : Nat) (path literal fileName : Word) (m : Logged) : Except Fault Logged := do
  let m ← strcpy fuel path literal m
  strcpy fuel (path + 3) fileName m

def systemPath (fuel : Nat) (path literal pgmName : Word) (m : Logged) : Except Fault Logged := do
  let m ← strcpy fuel path literal m
  strncpyLogged (path + 3) pgmName ENKI_MAX_PATH m

/-- `"0:/"` と名前 `t` が、配列 `path` の外に置かれている。 -/
structure PathInput (mem : Memory) (path literal name : Word) (t : List Byte) : Prop where
  prefix_text : StrAt mem literal drivePrefix
  prefix_apart : ∀ i < 4, ∀ j < ENKI_MAX_PATH, literal + BitVec.ofNat 32 i ≠ path + BitVec.ofNat 32 j
  name_text : StrAt mem name t
  name_apart : ∀ i ≤ t.length, ∀ j < ENKI_MAX_PATH, name + BitVec.ofNat 32 i ≠ path + BitVec.ofNat 32 j

/-- 書いたバイトは、どれも配列 `path` の中にある。 -/
def FitsPath (path : Word) (m : Logged) : Prop := ∀ a ∈ m.written, ∃ j < ENKI_MAX_PATH, a = path + BitVec.ofNat 32 j

variable {mem : Memory} {path literal name : Word} {t : List Byte} {m : Logged} {n : Nat}

/-! ## 文字列の読み取り -/

theorem read_text (h : StrAt mem name t) (hn : n ≤ t.length) : mem.read name n = t.take n := by
  induction n generalizing name t with
  | zero => rfl
  | succ n ih =>
      cases t with
      | nil => exact absurd hn (Nat.not_succ_le_zero n)
      | cons c t => rw [Memory.read_succ, h.1, ih h.2.2 (Nat.le_of_succ_le_succ hn), List.take_succ_cons]

theorem cString_text (h : StrAt mem name t) (n : Nat) : cString mem name n = t.take n := by
  rw [cString]
  induction n generalizing name t with
  | zero => rfl
  | succ n ih =>
      rw [Memory.read_succ]
      cases t with
      | nil =>
          have h0 : mem name = 0 := h
          rw [h0, List.takeWhile_cons_of_neg (by decide)]
          rfl
      | cons c t => rw [h.1, List.takeWhile_cons_of_pos (by simpa using h.2.1), ih h.2.2, List.take_succ_cons]

/-! ## 書く範囲 -/

theorem add_three_add (a : Word) (j : Nat) : a + 3 + BitVec.ofNat 32 j = a + BitVec.ofNat 32 (3 + j) := by
  rw [BitVec.ofNat_add, ← BitVec.add_assoc]
  rfl

/-- 配列の外にある文字列は、三文字後ろへの先頭からのコピーでも、読む前には書き換わらない。 -/
theorem PathInput.unread (h : PathInput mem path literal name t) {i j : Nat} (hi : i ≤ t.length) (hj : j < i) :
    name + BitVec.ofNat 32 i ≠ path + 3 + BitVec.ofNat 32 j := by
  intro he
  rw [add_three_add] at he
  rcases Nat.le_total (3 + j) i with hle | hle
  · refine h.name_apart (i - (3 + j)) (by omega) 0 (by decide) ?_
    have hsplit : i = i - (3 + j) + (3 + j) := by omega
    rw [hsplit, BitVec.ofNat_add, ← BitVec.add_assoc] at he
    rw [BitVec.add_zero]
    exact (BitVec.add_left_inj _).1 he
  · refine h.name_apart 0 (Nat.zero_le _) (3 + j - i) (Nat.lt_of_le_of_lt (by omega : 3 + j - i ≤ 2) (by decide)) ?_
    have hsplit : 3 + j = 3 + j - i + i := by omega
    rw [hsplit, BitVec.ofNat_add, ← BitVec.add_assoc] at he
    rw [BitVec.add_zero]
    exact (BitVec.add_left_inj _).1 he

/-- 先頭の三文字と終端を書いたところ。 -/
theorem strcpy_prefix (h : PathInput mem path literal name t) {fuel : Nat} (hfuel : 3 < fuel) :
    ∃ m, strcpy fuel path literal ⟨mem, []⟩ = .ok m ∧ m.mem = mem.write path (drivePrefix ++ [0]) ∧
      ∀ a, a ∈ m.written ↔ ∃ j ≤ 3, a = path + BitVec.ofNat 32 j := by
  have hchar : ∀ i ≤ 3, charAt mem literal i = byteAt drivePrefix i := fun i hi => charAt_text h.prefix_text hi
  have hne : ∀ i < 3, charAt mem literal i ≠ 0 := by
    intro i hi
    rw [hchar i (Nat.le_of_lt hi)]
    exact (by decide : ∀ i < 3, byteAt drivePrefix i ≠ 0) i hi
  have hapart : ∀ i ≤ 3, ∀ j < i, literal + BitVec.ofNat 32 i ≠ path + BitVec.ofNat 32 j := fun i hi j hj =>
    h.prefix_apart i (by omega) j (Nat.lt_of_le_of_lt (by omega : j ≤ 3) (by decide))
  obtain ⟨m, hrun, hmem, hwritten⟩ := copyLoop_text (m := ⟨mem, []⟩) hne (.inl ⟨hfuel, hchar 3 (Nat.le_refl 3)⟩) hapart (by decide)
  refine ⟨m, hrun, ?_, ?_⟩
  · rw [hmem, read_text h.prefix_text (by decide)]
    rfl
  · simpa using hwritten

/-- 先頭の三文字に続けて、名前のはじめの `n` 文字が書かれる。 -/
theorem copy_name (stop : Word → Logged → Except Fault Logged) (h : PathInput mem path literal name t) {k : Nat} (hn : n ≤ t.length)
    (hsmall : n < 2 ^ 16) (hend : (n < k ∧ n = t.length) ∨ (n = k ∧ ∀ dst m, stop dst m = .ok (m.put dst 0)))
    (hmem : m.mem = mem.write path (drivePrefix ++ [0])) (hwritten : ∀ a, a ∈ m.written ↔ ∃ j ≤ 3, a = path + BitVec.ofNat 32 j) :
    ∃ m', copyLoop stop k (path + 3) name m = .ok m' ∧ StrAt m'.mem path (drivePrefix ++ t.take n) ∧
      ∀ a, a ∈ m'.written ↔ ∃ j ≤ 3 + n, a = path + BitVec.ofNat 32 j := by
  have htext : StrAt m.mem name t := by
    refine h.name_text.congr fun i hi => ?_
    rw [hmem]
    exact write_outside fun j hj => h.name_apart i hi j (Nat.lt_trans hj (by decide))
  have hchar : ∀ i ≤ t.length, charAt m.mem name i = byteAt t i := fun i hi => charAt_text htext hi
  have hne : ∀ i < n, charAt m.mem name i ≠ 0 := by
    intro i hi
    rw [hchar i (by omega), byteAt, List.getD_eq_getElem?_getD, List.getElem?_eq_getElem (by omega)]
    exact htext.ne_zero _ (List.getElem_mem _)
  have hend' : (n < k ∧ charAt m.mem name n = 0) ∨ (n = k ∧ ∀ dst m, stop dst m = .ok (m.put dst 0)) := by
    rcases hend with ⟨hk, hlast⟩ | hfull
    · refine .inl ⟨hk, ?_⟩
      rw [hchar n hn, hlast, byteAt, List.getD_eq_getElem?_getD, List.getElem?_eq_none (Nat.le_refl _)]
      rfl
    · exact .inr hfull
  obtain ⟨m', hrun, hmem', hwritten'⟩ := copyLoop_text hne hend' (fun i hi j hj => h.unread (by omega) hj) (by omega)
  refine ⟨m', hrun, ?_, ?_⟩
  · have hwrite : m'.mem = mem.write path ((drivePrefix ++ t.take n) ++ [0]) := by
      have hprefix := Memory.write_append mem path drivePrefix [0] (by decide)
      have hrest := Memory.write_append mem path drivePrefix (t.take n ++ [0]) (by simp [drivePrefix]; omega)
      rw [hmem', read_text htext hn, hmem, ← hprefix, List.append_assoc, ← hrest]
      exact Memory.write_over _ _ _ (by simp)
    rw [hwrite]
    refine strAt_write (by simp [drivePrefix]; omega) fun c hc => ?_
    rcases List.mem_append.1 hc with hc | hc
    · exact (by decide : ∀ c ∈ drivePrefix, c ≠ 0) c hc
    · exact h.name_text.ne_zero c (List.mem_of_mem_take hc)
  · intro a
    rw [hwritten', hwritten]
    constructor
    · rintro (⟨j, hj, rfl⟩ | ⟨j, hj, rfl⟩)
      · exact ⟨j, by omega, rfl⟩
      · exact ⟨3 + j, by omega, add_three_add path j⟩
    · rintro ⟨j, hj, rfl⟩
      rcases Nat.le_total j 3 with hle | hle
      · exact .inl ⟨j, hle, rfl⟩
      · refine .inr ⟨j - 3, by omega, ?_⟩
        rw [add_three_add, Nat.add_sub_cancel' hle]

theorem fitsPath_iff (hsmall : n < 2 ^ 16) (hwritten : ∀ a, a ∈ m.written ↔ ∃ j ≤ 3 + n, a = path + BitVec.ofNat 32 j) :
    FitsPath path m ↔ n ≤ 104 := by
  constructor
  · intro h
    obtain ⟨j, hj, he⟩ := h _ ((hwritten _).2 ⟨3 + n, Nat.le_refl _, rfl⟩)
    unfold ENKI_MAX_PATH at hj
    have heq := (add_ofNat_inj path (by omega) (by omega)).1 he
    omega
  · intro hn a ha
    obtain ⟨j, hj, rfl⟩ := (hwritten a).1 ha
    exact ⟨j, Nat.lt_of_le_of_lt (by omega : j ≤ 107) (by decide), rfl⟩

theorem procStartPath_fits (h : PathInput mem path literal name t) (hlen : t.length < ENKI_MAX_PATH) :
    ∃ m, Settles (fun fuel => procStartPath fuel path literal name ⟨mem, []⟩) m ∧
      StrAt m.mem path (drivePrefix ++ cString mem name ENKI_MAX_PATH) ∧ (FitsPath path m ↔ t.length ≤ 104) := by
  unfold ENKI_MAX_PATH at hlen
  obtain ⟨m₁, hprefix, hmem, hwritten⟩ := strcpy_prefix h (show 3 < 4 by decide)
  obtain ⟨m, hname, htext, hwritten'⟩ := copy_name (fun _ _ => .error .hang) h (Nat.le_refl _) (by omega)
    (.inl ⟨Nat.lt_succ_self _, rfl⟩) hmem hwritten
  refine ⟨m, ⟨t.length + 4, fun fuel hfuel => ?_⟩, ?_, fitsPath_iff (by omega) hwritten'⟩
  · exact bind_ok.2 ⟨m₁, strcpy_mono hprefix (by omega), strcpy_mono hname (by omega)⟩
  · rwa [cString_text h.name_text, List.take_of_length_le (Nat.le_of_lt hlen), ← List.take_length (l := t)]

theorem systemPath_fits (h : PathInput mem path literal name t) :
    ∃ m, Settles (fun fuel => systemPath fuel path literal name ⟨mem, []⟩) m ∧
      StrAt m.mem path (drivePrefix ++ cString mem name (ENKI_MAX_PATH - 1)) ∧ (FitsPath path m ↔ t.length ≤ 104) := by
  obtain ⟨m₁, hprefix, hmem, hwritten⟩ := strcpy_prefix h (show 3 < 4 by decide)
  have hend : (min t.length 107 < 107 ∧ min t.length 107 = t.length) ∨ min t.length 107 = 107 := by omega
  obtain ⟨m, hname, htext, hwritten'⟩ := copy_name (fun dst m => .ok (m.put dst 0)) h (Nat.min_le_left _ _) (by omega)
    (hend.imp_right fun heq => ⟨heq, fun _ _ => rfl⟩) hmem hwritten
  refine ⟨m, ⟨4, fun fuel hfuel => ?_⟩, ?_, (fitsPath_iff (by omega) hwritten').trans (by omega)⟩
  · exact bind_ok.2 ⟨m₁, strcpy_mono hprefix hfuel, hname⟩
  · rwa [cString_text h.name_text, List.take_eq_take_min, Nat.min_comm]

/-- 書くバイトがどれも配列 `path` に収まるのは、名前が 104 文字までのときである。 -/
theorem path_fits_iff (h : PathInput mem path literal name t) :
    (t.length < ENKI_MAX_PATH → ∃ m, Settles (fun fuel => procStartPath fuel path literal name ⟨mem, []⟩) m ∧
      StrAt m.mem path (drivePrefix ++ cString mem name ENKI_MAX_PATH) ∧ (FitsPath path m ↔ t.length ≤ 104)) ∧
    ∃ m, Settles (fun fuel => systemPath fuel path literal name ⟨mem, []⟩) m ∧
      StrAt m.mem path (drivePrefix ++ cString mem name (ENKI_MAX_PATH - 1)) ∧ (FitsPath path m ↔ t.length ≤ 104) :=
  ⟨procStartPath_fits h, systemPath_fits h⟩

/-- `0x2000` に `n` 文字の名前、`0x3000` に `"0:/"` を置いたメモリ。 -/
def pathMemory (n : Nat) : Memory :=
  (Memory.write (fun _ => 0xFF) 0x2000 (List.replicate n 0x61 ++ [0])).write 0x3000 (drivePrefix ++ [0])

theorem pathMemory_input {n : Nat} (hn : n < 512) : PathInput (pathMemory n) 0x1000 0x3000 0x2000 (List.replicate n 0x61) := by
  have h1 : (0x1000 : Word).toNat = 0x1000 := rfl
  have h2 : (0x2000 : Word).toNat = 0x2000 := rfl
  have h3 : (0x3000 : Word).toNat = 0x3000 := rfl
  have hletter : ∀ c ∈ List.replicate n (0x61 : Byte), c ≠ 0 := by
    intro c hc
    rw [List.eq_of_mem_replicate hc]
    decide
  have hname : StrAt (Memory.write (fun _ => 0xFF) 0x2000 (List.replicate n 0x61 ++ [0])) 0x2000 (List.replicate n 0x61) :=
    strAt_write (by rw [List.length_replicate]; omega) hletter
  constructor
  · exact strAt_write (by decide) (by decide)
  · intro i hi j hj
    unfold ENKI_MAX_PATH at hj
    exact add_ofNat_ne (by omega) (by omega) (by omega)
  · refine hname.congr fun i hi => write_outside fun j hj => ?_
    rw [List.length_replicate] at hi
    have hj' : j < 4 := hj
    exact add_ofNat_ne (by omega) (by omega) (by omega)
  · intro i hi j hj
    rw [List.length_replicate] at hi
    unfold ENKI_MAX_PATH at hj
    exact add_ofNat_ne (by omega) (by omega) (by omega)

theorem path_fits_iff_long :
    (∃ m, Settles (fun fuel => procStartPath fuel 0x1000 0x3000 0x2000 ⟨pathMemory 105, []⟩) m ∧
      StrAt m.mem 0x1000 (drivePrefix ++ cString (pathMemory 105) 0x2000 ENKI_MAX_PATH) ∧
      (FitsPath 0x1000 m ↔ (List.replicate 105 (0x61 : Byte)).length ≤ 104)) ∧
    ∃ m, Settles (fun fuel => systemPath fuel 0x1000 0x3000 0x2000 ⟨pathMemory 105, []⟩) m ∧
      StrAt m.mem 0x1000 (drivePrefix ++ cString (pathMemory 105) 0x2000 (ENKI_MAX_PATH - 1)) ∧
      (FitsPath 0x1000 m ↔ (List.replicate 105 (0x61 : Byte)).length ≤ 104) :=
  (path_fits_iff (pathMemory_input (by decide))).imp_left fun h => h (by decide)

/-- 105 文字の名前は、どちらの呼び出しでも配列に収まらない。 -/
theorem path_fits_fails :
    PathInput (pathMemory 105) 0x1000 0x3000 0x2000 (List.replicate 105 0x61) ∧
    (∃ m, Settles (fun fuel => procStartPath fuel 0x1000 0x3000 0x2000 ⟨pathMemory 105, []⟩) m ∧ ¬FitsPath 0x1000 m) ∧
    ∃ m, Settles (fun fuel => systemPath fuel 0x1000 0x3000 0x2000 ⟨pathMemory 105, []⟩) m ∧ ¬FitsPath 0x1000 m := by
  have hinput := pathMemory_input (show 105 < 512 by decide)
  obtain ⟨m, hm, -, hfits⟩ := procStartPath_fits hinput (by decide)
  obtain ⟨m', hm', -, hfits'⟩ := systemPath_fits hinput
  exact ⟨hinput, ⟨m, hm, fun h => absurd (hfits.1 h) (by decide)⟩, m', hm', fun h => absurd (hfits'.1 h) (by decide)⟩

end EnkiOs
