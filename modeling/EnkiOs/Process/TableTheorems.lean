import EnkiOs.Process.Atomic
import EnkiOs.Process.Territory

/-!
# プロセスの表の不変条件

読み込みと切り替え、終了のどの並びの後でも、表の番号と記録の `id` は一致し、動いているプロセスは登録されている。
-/

namespace EnkiOs
open Machine

variable {s s' s₁ : Kernel} {fileName : List Byte} {result : Int} {proc p : Word} {own : Word → Nat → Prop}
  {terminate : Kernel → Word → Except Fault (Int × Kernel)}

/-! ## 不変条件 -/

def Registered (s : Kernel) (p : Word) : Prop := p ≠ 0 ∧ ∃ i, 0 ≤ i ∧ i < ENKI_MAX_PROCESSES ∧ s.processes i = p

/-- 登録されたプロセスの領分が、互いに重ならない。 -/
structure Territories (s : Kernel) (own : Word → Nat → Prop) : Prop where
  territory : ∀ p, Registered s p → Territory s p (own p)
  disjoint : ∀ p q, Registered s p → Registered s q → p ≠ q → ∀ b, own p b → ¬own q b

structure TableInv (s : Kernel) : Prop where
  tidy : Tidy s.heap
  stray : Stray s.toFileState
  id : ∀ i, 0 ≤ i → i < ENKI_MAX_PROCESSES → s.processes i ≠ 0 → ((s.procs (s.processes i)).id.toNat : Int) = i
  territories : ∃ own, Territories s own

theorem TableInv.id_inj (hi : TableInv s) {i j : Int} (hi0 : 0 ≤ i) (hin : i < ENKI_MAX_PROCESSES) (hj0 : 0 ≤ j)
    (hjn : j < ENKI_MAX_PROCESSES) (hp : p ≠ 0) (hpi : s.processes i = p) (hpj : s.processes j = p) : i = j := by
  have h1 := hi.id i hi0 hin (hpi ▸ hp)
  have h2 := hi.id j hj0 hjn (hpj ▸ hp)
  rw [hpi] at h1
  rw [hpj] at h2
  exact h1.symm.trans h2

theorem Territories.spared (ht : Territories s own)
    (hreg : ∀ p, Registered s' p → Registered s p ∧ Spares s s' p (own p)) : Territories s' own where
  territory p hp := (ht.territory p (hreg p hp).1).spared (hreg p hp).2
  disjoint p q hp hq := ht.disjoint p q (hreg p hp).1 (hreg q hq).1

/-- どのプロセスも登録されていない状態。 -/
theorem TableInv.start (hempty : ∀ i, 0 ≤ i → i < ENKI_MAX_PROCESSES → s.processes i = 0) (htidy : Tidy s.heap)
    (hstray : Stray s.toFileState) : TableInv s where
  tidy := htidy
  stray := hstray
  id i h1 h2 hne := absurd (hempty i h1 h2) hne
  territories := by
    have hnone : ∀ p, ¬Registered s p := by
      rintro p ⟨hne, i, h1, h2, rfl⟩
      exact hne (hempty i h1 h2)
    exact ⟨fun _ _ => False, fun p hp => absurd hp (hnone p), fun p _ hp => absurd hp (hnone p)⟩

theorem TableInv.switch (hi : TableInv s) (p : Word) : TableInv (processSwitch s p).2 where
  tidy := hi.tidy
  stray := hi.stray
  id := hi.id
  territories := by
    obtain ⟨own, ht⟩ := hi.territories
    exact ⟨own, ht.spared fun p hp => ⟨hp, rfl, rfl, fun _ _ => rfl, fun _ _ _ => rfl, fun _ _ _ => rfl⟩⟩

/-! ## 読み込み -/

theorem processLoadSwitchWith_ok (h : processLoadSwitchWith terminate s fileName = .ok (0, proc, s')) :
    ∃ s₁, processLoadWith terminate s fileName = .ok (0, proc, s₁) ∧ s' = (processSwitch s₁ proc).2 := by
  obtain ⟨⟨err, p, s₁⟩, hload, h⟩ := bind_ok.1 h
  simp only at h
  split at h
  · rename_i h0
    cases h
    exact ⟨s₁, hload, rfl⟩
  · rename_i hne
    cases h
    exact absurd rfl hne

/-- 成功した読み込みは、空いた番号に登録する。 -/
theorem processLoadWith_enrolls (h : processLoadWith terminate s fileName = .ok (result, proc, s')) (hresult : 0 ≤ result) :
    ∃ slot, 0 ≤ slot ∧ slot < ENKI_MAX_PROCESSES ∧ s.processes slot = 0 ∧ Enrolls s s' slot proc ∧
      processLoadSlotWith terminate s fileName slot = .ok (result, proc, s') := by
  simp only [processLoadWith] at h
  split at h
  · cases h
    exact absurd hresult (by decide)
  · rename_i hslot
    rcases processGetFreeSlot_cases s with ⟨he, -⟩ | ⟨h1, h2, h3⟩
    · rw [he] at hslot
      exact absurd (by decide) hslot
    · exact ⟨_, h1, h2, h3, processLoadSlotWith_enrolls h hresult, h⟩

theorem Enrolls.registered {slot : Int} (hen : Enrolls s s' slot proc) (h0 : 0 ≤ slot) (hn : slot < ENKI_MAX_PROCESSES) :
    Registered s' proc := by
  refine ⟨hen.record_ne, slot, h0, hn, ?_⟩
  rw [hen.processes]
  exact if_pos rfl

/-- 読み込みの後に登録されているのは、読み込んだプロセスと、前からのプロセスである。 -/
theorem Enrolls.earlier {slot : Int} (hen : Enrolls s s' slot proc) (hp : Registered s' p) (hne : p ≠ proc) : Registered s p := by
  obtain ⟨hp0, i, hi0, hin, heq⟩ := hp
  rw [hen.processes] at heq
  simp only at heq
  split at heq
  · exact absurd heq.symm hne
  · exact ⟨hp0, i, hi0, hin, heq⟩

/-- 成功した読み込みは、新しいプロセスを登録するだけである。 -/
theorem TableInv.load (hi : TableInv s) (h : processLoadWith terminate s fileName = .ok (result, proc, s'))
    (hresult : 0 ≤ result) (hfits : ImageFits (s'.procs proc)) : TableInv s' := by
  obtain ⟨slot, h1, h2, hfree, hen, hload⟩ := processLoadWith_enrolls h hresult
  have hset := processLoadSlotWith_settles hi.tidy hi.stray hload hresult hfits
  obtain ⟨own, ht⟩ := hi.territories
  -- 前から登録されていたプロセスの記録は塞がったブロックにあるので、新しい記録とは違う。
  have hold : ∀ p, Registered s p → p ≠ proc := by
    rintro p hp rfl
    obtain ⟨b, hown, heq⟩ := (ht.territory p hp).record
    obtain ⟨hlt, htaken⟩ := (ht.territory p hp).taken b hown
    obtain ⟨c, hc, heq', hfree⟩ := hset.record.fresh
    obtain rfl := blockAddr_inj (Nat.le_of_lt hlt) (Nat.le_of_lt hc) (heq.symm.trans heq')
    rw [Taken, hfree] at htaken
    cases htaken
  have hreg : ∀ p, Registered s' p → p ≠ proc → Registered s p := by
    rintro p ⟨hne, i, hi0, hin, heq⟩ hp
    rw [hen.processes] at heq
    simp only at heq
    split at heq
    · exact absurd heq.symm hp
    · exact ⟨hne, i, hi0, hin, heq⟩
  refine ⟨hset.shelters.tidy, hset.shelters.stray hi.stray, ?_, ?_⟩
  · intro i hi0 hin hne
    rw [hen.processes] at hne ⊢
    simp only at hne ⊢
    split
    · rename_i heq
      rw [hen.id, ← heq, BitVec.toNat_ofInt]
      simp only [ENKI_MAX_PROCESSES] at hin
      omega
    · rename_i heq
      rw [if_neg heq] at hne
      rw [hen.others _ (hold _ ⟨hne, i, hi0, hin, rfl⟩)]
      exact hi.id i hi0 hin hne
  · refine ⟨fun p => if p = proc then settledOwn s s' proc else own p, ?_, ?_⟩
    · intro p hp
      by_cases heq : p = proc
      · rw [if_pos heq, heq]
        exact hset.territory hen.allocations
      · rw [if_neg heq]
        have hp := hreg p hp heq
        exact (ht.territory p hp).spared (hset.spares (ht.territory p hp) (hen.others p heq))
    · intro p q hp hq hne b hb hb'
      have hnew : ∀ q, Registered s' q → q ≠ proc → settledOwn s s' proc b → ¬own q b := by
        intro q hq hne hb hb'
        have htaken := ((ht.territory q (hreg q hq hne)).taken b hb').2
        rw [Taken, (settledOwn_free hb).2] at htaken
        cases htaken
      by_cases hpe : p = proc
      · have hqe : q ≠ proc := fun he => hne (hpe.trans he.symm)
        rw [if_pos hpe] at hb
        rw [if_neg hqe] at hb'
        exact hnew q hq hqe hb hb'
      · rw [if_neg hpe] at hb
        by_cases hqe : q = proc
        · rw [if_pos hqe] at hb'
          exact hnew p hp hpe hb' hb
        · rw [if_neg hqe] at hb'
          exact ht.disjoint p q (hreg p hp hpe) (hreg q hq hqe) hne b hb hb'

/-- 登録されたプロセスの本体は、どれもアドレス空間に収まる。 -/
def ImagesFit (s : Kernel) : Prop := ∀ p, Registered s p → ImageFits (s.procs p)

theorem TableInv.loadSwitch (hi : TableInv s) (h : processLoadSwitchWith terminate s fileName = .ok (0, proc, s'))
    (hfits : ImagesFit s') : TableInv s' ∧ Registered s' s'.processCurrent := by
  obtain ⟨s₁, hload, rfl⟩ := processLoadSwitchWith_ok h
  obtain ⟨slot, h1, h2, -, hen, -⟩ := processLoadWith_enrolls hload (Int.le_refl 0)
  have hreg := hen.registered h1 h2
  exact ⟨(hi.load hload (Int.le_refl 0) (hfits proc hreg)).switch proc, hreg⟩

/-! ## 終了 -/

/-- 表から外す手前までの終了と、表から外すこと。 -/
theorem TableInv.release (hi : TableInv s) {i : Int} (hi0 : 0 ≤ i) (hin : i < ENKI_MAX_PROCESSES) (hp : p ≠ 0)
    (hpi : s.processes i = p) (hr : Releases s s₁ p) :
    TableInv { s₁ with processes := fun j => if j = i then 0 else s₁.processes j } := by
  obtain ⟨own, ht⟩ := hi.territories
  have hterr := ht.territory p ⟨hp, i, hi0, hin, hpi⟩
  have htidy := (hr.shielded hi.tidy hterr).2
  obtain ⟨heap, tasks, current, head, tail, hs₁⟩ := hr.frame
  have hprocesses : s₁.processes = s.processes := by rw [hs₁]
  have hprocs : s₁.procs = s.procs := by rw [hs₁]
  refine ⟨htidy, ?_, ?_, own, ?_⟩
  · have hfat : s₁.fatFiles = s.fatFiles := by rw [hs₁]
    intro a ha
    rw [hfat]
    exact hi.stray a ha
  · intro j hj0 hjn hne
    simp only at hne ⊢
    split
    · rename_i heq
      exact absurd (if_pos heq) hne
    · rename_i heq
      rw [if_neg heq, hprocesses] at hne
      rw [hprocesses, hprocs]
      exact hi.id j hj0 hjn hne
  · refine ht.spared ?_
    rintro q ⟨hq, j, hj0, hjn, heq⟩
    simp only at heq
    split at heq
    · exact absurd heq.symm hq
    · rename_i hji
      rw [hprocesses] at heq
      have hreg : Registered s q := ⟨hq, j, hj0, hjn, heq⟩
      have hne : q ≠ p := by
        rintro rfl
        exact hji (hi.id_inj hj0 hjn hi0 hin hq heq hpi)
      have hspares := hr.spares hi.tidy hterr (ht.territory q hreg)
        (ht.disjoint q p hreg ⟨hp, i, hi0, hin, hpi⟩ hne)
      exact ⟨hreg, hspares.record, hspares.pageDir, hspares.words, hspares.elfFiles, hspares.entries⟩

/-- 切り替え先は、登録されたプロセスか、読み込んだシェルである。 -/
theorem processSwitchToAnyWith_cases {k : Nat} {i : Int} (h : processSwitchToAnyWith terminate s k i = .ok s') :
    (∃ j, i ≤ j ∧ j < i + k ∧ s.processes j ≠ 0 ∧ s' = (processSwitch s (s.processes j)).2) ∨
      ∃ proc, processLoadSwitchWith terminate s shellName = .ok (0, proc, s') := by
  induction k generalizing i with
  | zero =>
      obtain ⟨⟨err, proc, s₁⟩, hload, h⟩ := bind_ok.1 h
      simp only at h
      split at h
      · cases h
      · rename_i h0
        cases h
        obtain rfl := not_not.1 h0
        exact .inr ⟨proc, hload⟩
  | succ k ih =>
      rw [processSwitchToAnyWith] at h
      split at h
      · rename_i hne
        cases h
        exact .inl ⟨i, Int.le_refl i, by omega, hne, rfl⟩
      · rcases ih h with ⟨j, h1, h2, hrest⟩ | hshell
        · exact .inl ⟨j, by omega, by omega, hrest⟩
        · exact .inr hshell

/-- 登録されたプロセスの終了は、不変条件を保つ。動いているプロセスは、終了したものにならない。 -/
theorem TableInv.terminated (hi : TableInv s) {depth : Nat} {code : Int} (hp : Registered s p)
    (h : processTerminate depth s p = .ok (code, s')) (hfits : ImagesFit s') :
    TableInv s' ∧ (Registered s s.processCurrent → Registered s' s'.processCurrent) := by
  obtain ⟨hne, i, hi0, hin, hpi⟩ := hp
  obtain ⟨own, ht⟩ := hi.territories
  have hterr := ht.territory p ⟨hne, i, hi0, hin, hpi⟩
  cases depth with
  | zero => cases h
  | succ depth =>
      obtain ⟨s₁, hr, hunlink⟩ := processTerminate_releases hterr.empty hterr.task hterr.released h
      have hid : ((s₁.procs p).id.toNat : Int) = i := by
        obtain ⟨heap, tasks, current, head, tail, hs₁⟩ := hr.frame
        have hrec := hi.id i hi0 hin (hpi ▸ hne)
        rw [hpi] at hrec
        rw [hs₁]
        exact hrec
      have hi₂ := hi.release hi0 hin hne hpi hr
      simp only [processUnlinkWith, hid] at hunlink
      split at hunlink
      · rcases processSwitchToAnyWith_cases hunlink with ⟨j, h1, h2, hj, rfl⟩ | ⟨proc, hload⟩
        · exact ⟨hi₂.switch _, fun _ => ⟨hj, j, h1, by simpa using h2, rfl⟩⟩
        · obtain ⟨hi', hreg⟩ := hi₂.loadSwitch hload hfits
          exact ⟨hi', fun _ => hreg⟩
      · rename_i hcur
        cases hunlink
        refine ⟨hi₂, ?_⟩
        rintro ⟨hc, j, hj0, hjn, heq⟩
        obtain ⟨heap, tasks, current, head, tail, rfl⟩ := hr.frame
        have hji : j ≠ i := by
          rintro rfl
          exact hcur (heq.symm.trans hpi)
        exact ⟨hc, j, hj0, hjn, (if_neg hji).trans heq⟩

/-! ## 表の埋まり -/

theorem pagingMapTo_code (words : Words) (dir virt phys physEnd flags : Word) :
    (pagingMapTo words dir virt phys physEnd flags).1 = 0 ∨ (pagingMapTo words dir virt phys physEnd flags).1 = -EINVARG := by
  rw [pagingMapTo]
  split
  · exact .inr rfl
  · rename_i hal
    simp only [ne_eq, not_or, not_not, pageAligned_iff] at hal
    split
    · exact .inr rfl
    · simp only [pagingMapRange]
      rw [pagingMapLoop_eq _ _ _ hal.1 hal.2]
      exact .inl (ite_self _)

theorem processMapElfLoop_code {mem : Memory} {file : ElfFile} {dir : Word} {k i : Nat} {words : Words}
    (hresult : result = 0 ∨ result = -EINVARG) :
    (processMapElfLoop mem file dir k i result words).1 = 0 ∨ (processMapElfLoop mem file dir k i result words).1 = -EINVARG := by
  induction k generalizing i result words with
  | zero => exact hresult
  | succ k ih =>
      have hcode := pagingMapTo_code words dir (pagingAlignToLower (elfProgramHeader mem file.elfMemory i).pVaddr)
      rw [processMapElfLoop]
      simp only
      split
      · exact hcode _ _ _
      · exact ih (hcode _ _ _)

theorem processMapMemory_code (h : processMapMemory s proc = .ok (result, s')) : result = 0 ∨ result = -EINVARG := by
  obtain ⟨dir, -, h⟩ := bind_ok.1 h
  obtain ⟨⟨code, words⟩, hmap, h⟩ := bind_ok.1 h
  have hresult : result = code := by
    simp only at h
    split at h
    · cases h
      rfl
    · cases h
      rfl
  rw [hresult]
  rw [processMapImage] at hmap
  split at hmap
  · cases hmap
    exact .inl rfl
  · split at hmap
    · have hcode := congrArg Prod.fst (Except.ok.inj hmap)
      simp only at hcode
      rw [← hcode, processMapElf]
      exact processMapElfLoop_code (.inl rfl)
    · cases hmap

/-- 読み込みが `-EISTKN` を返すのは、どの番号も使われているとき、そのときに限る。 -/
theorem processLoad_taken_iff (s : Kernel) (depth : Nat) (fileName : List Byte) :
    (∃ p s', processLoad depth s fileName = .ok (-EISTKN, p, s')) ↔ SlotsFull s := by
  rcases processGetFreeSlot_cases s with ⟨hslot, hfull⟩ | ⟨hlow, hhigh, hfree⟩
  · refine iff_of_true ⟨0, s, ?_⟩ hfull
    simp only [processLoad, processLoadWith]
    rw [hslot, if_pos (by decide)]
  · refine iff_of_false ?_ fun hfull => hfull.not_free hlow hhigh hfree
    rintro ⟨p, s', h⟩
    simp only [processLoad, processLoadWith] at h
    rw [if_neg (Int.not_lt.2 hlow)] at h
    have hget : processGet s (processGetFreeSlot s) = 0 := by
      rw [processGet]
      split
      · rfl
      · exact hfree
    by_cases hproc : (kzalloc s.heap PROCESS_SIZE).1 = 0
    · have hcode := h.symm.trans (processLoadSlot_noRecord hget hproc)
      exact absurd (congrArg Prod.fst (Except.ok.inj hcode)) (show ¬(-EISTKN = -ENOMEM) by decide)
    · obtain ⟨_, _, _, _, -, -, -, hmap⟩ := processLoadSlot_refused hget hproc h (by decide)
      rcases processMapMemory_code hmap with h0 | h0
      · exact absurd h0 (by decide)
      · exact absurd h0 (by decide)

/-! ## 二つのプロセス -/

/-- 登録されているのは、ELF ファイルを読み込んだプロセスだけである。 -/
def AllElf (s : Kernel) : Prop := ∀ p, Registered s p → (s.procs p).fileType = PROCESS_FILE_TYPE_ELF

theorem AllElf.imagesFit (h : AllElf s) : ImagesFit s := fun p hp hbin => absurd ((h p hp).symm.trans hbin) (by decide)

theorem AllElf.empty (h : ∀ i, 0 ≤ i → i < ENKI_MAX_PROCESSES → s.processes i = 0) : AllElf s := by
  rintro p ⟨hne, i, h0, hn, heq⟩
  exact absurd (heq.symm.trans (h i h0 hn)) hne

theorem AllElf.enrolls (h : AllElf s) {slot : Int} (hen : Enrolls s s' slot proc)
    (htype : (s'.procs proc).fileType = PROCESS_FILE_TYPE_ELF) : AllElf s' := by
  intro q hq
  by_cases hqp : q = proc
  · rw [hqp]
    exact htype
  · rw [hen.others q hqp]
    exact h q (hen.earlier hq hqp)

section

variable {image : List Byte} {v : Volume} (hv : v.disk = imageDisk image)
include hv

/-- `A` を読み込んで切り替える。 -/
theorem imageDisk_loadSwitch (hlen : image.length = 88) (hdisk : s.disk = v.disk) (hpriv : s.priv = some v.priv)
    {b i : Nat} (hp : Packed s.heap b) (hroom : b + 1043 ≤ 25600)
    (hslot : fileFreeSlot s.toFileState ENKI_MAX_FILE_DESCRIPTORS 0 = some i) (hi : i < 511) {slot : Int}
    (hfree : processGetFreeSlot s = slot) (h0 : 0 ≤ slot)
    (hlinks : s.taskTail = 0 → s.taskHead = 0)
    (hzero : ∀ x, (x - blockAddr (b + 11)).toNat < 5 * 4096 → s.mem x = 0) {file : ElfFile}
    (haccept : elfProcessLoaded (s.mem.write (blockAddr (b + 11)) image) { elfMemory := blockAddr (b + 11) } = (0, file))
    (depth : Nat) (hmap : ∀ words dir, (processMapElf (s.mem.write (blockAddr (b + 11)) image) words dir file).1 = 0)
    (helf : AllElf s) :
    ∃ s', processLoadSwitch depth s imageName = .ok (0, blockAddr b, (processSwitch s' (blockAddr b)).2) ∧
      Enrolls s s' slot (blockAddr b) ∧ s'.mem = s.mem.write (blockAddr (b + 11)) image ∧
      s'.taskTail = blockAddr (b + 16) ∧ Packed s'.heap (b + 1043) ∧ Occupied s.toFileState s'.toFileState i ∧ AllElf s' := by
  have hget : processGet s slot = 0 := by
    rw [processGet]
    split
    · rfl
    · rcases processGetFreeSlot_cases s with ⟨he, -⟩ | ⟨-, -, h⟩
      · rw [hfree] at he
        rw [he] at h0
        exact absurd h0 (by decide)
      · rwa [hfree] at h
  obtain ⟨s₀, hmem, htype, -, htail, hp', hocc, hload⟩ :=
    imageDisk_load hv hlen hdisk hpriv hp hroom hslot hi hget hlinks hzero haccept depth hmap
  rw [if_neg (Int.lt_irrefl 0)] at hload
  have hen := processLoadSlotWith_enrolls hload (Int.le_refl 0)
  have hwith : processLoad depth s imageName = .ok (0, blockAddr b, { s₀ with
      processes := fun i => if i = slot then blockAddr b else s₀.processes i }) := by
    rw [processLoad, processLoadWith, hfree, if_neg (Int.not_lt.2 h0)]
    exact hload
  exact ⟨_, bind_ok.2 ⟨_, hwith, rfl⟩, hen, hmem, htail, hp', { hocc with }, helf.enrolls hen htype⟩

end

/-- 起動の直後に、同じ ELF ファイルを二度読み込むと、番号 0 と 1 に登録される。 -/
theorem boot_loadTwice : ∃ (v : Volume) (s₁ s₂ : Kernel), v.disk = imageDisk (elfImage 88 0) ∧
    processLoadSwitch 1 (Kernel.boot (stateWith v 0)) imageName = .ok (0, blockAddr 0, s₁) ∧ AllElf s₁ ∧
    processLoadSwitch 1 s₁ imageName = .ok (0, blockAddr 1043, (processSwitch s₂ (blockAddr 1043)).2) ∧ AllElf s₂ ∧
    Enrolls s₁ s₂ 1 (blockAddr 1043) ∧ Packed s₂.heap 2086 ∧ s₂.processes 0 = blockAddr 0 := by
  obtain ⟨v, hv⟩ : ∃ v : Volume, v.disk = imageDisk (elfImage 88 0) := smallDisk_resolved (imageDisk_root _)
  -- 一度目
  obtain ⟨file, haccept, hmap⟩ : ∃ file,
      elfProcessLoaded (Memory.write (fun _ => 0) (blockAddr 11) (elfImage 88 0)) { elfMemory := blockAddr 11 } = (0, file) ∧
      ∀ words dir, (processMapElf (Memory.write (fun _ => 0) (blockAddr 11) (elfImage 88 0)) words dir file).1 = 0 :=
    ⟨_, rfl, fun _ _ => rfl⟩
  have hslot := stateWith_freeSlot v (show 0 < ENKI_MAX_FILE_DESCRIPTORS by decide)
  have helf : AllElf (Kernel.boot (stateWith v 0)) := .empty fun _ _ _ => rfl
  obtain ⟨s₀, hswitch, hen, hmem, htail, hp, hocc, helf₀⟩ := imageDisk_loadSwitch hv rfl (s := Kernel.boot (stateWith v 0))
    rfl rfl bootHeap_packed (by decide) hslot (by decide) (show processGetFreeSlot (Kernel.boot (stateWith v 0)) = 0 from rfl)
    (by decide) (fun _ => rfl) (fun _ _ => rfl) haccept 1 hmap helf
  obtain ⟨s₁, hs₁⟩ : ∃ s₁, s₁ = (processSwitch s₀ (blockAddr 0)).2 := ⟨_, rfl⟩
  rw [← hs₁] at hswitch
  -- 二度目
  obtain ⟨file', haccept', hmap'⟩ : ∃ file,
      elfProcessLoaded ((Memory.write (fun _ => 0) (blockAddr 11) (elfImage 88 0)).write (blockAddr 1054) (elfImage 88 0))
        { elfMemory := blockAddr 1054 } = (0, file) ∧
      ∀ words dir, (processMapElf ((Memory.write (fun _ => 0) (blockAddr 11) (elfImage 88 0)).write (blockAddr 1054)
        (elfImage 88 0)) words dir file).1 = 0 := ⟨_, rfl, fun _ _ => rfl⟩
  have hmem₁ : s₁.mem = Memory.write (fun _ => 0) (blockAddr 11) (elfImage 88 0) := by
    rw [hs₁]
    exact hmem
  rw [← hmem₁] at haccept' hmap'
  have hzero : ∀ x, (x - blockAddr (1043 + 11)).toNat < 5 * 4096 → s₁.mem x = 0 := by
    intro x hx
    have hbase : (blockAddr (1043 + 11)).toNat = 0x141E000 := rfl
    have hfirst : (blockAddr 11).toNat = 0x100B000 := rfl
    have hlen : (elfImage 88 0).length = 88 := rfl
    rw [hmem₁, Memory.write_other]
    rw [hlen]
    bv_omega
  have hprocesses : s₁.processes = fun i => if i = 0 then blockAddr 0 else 0 := by
    rw [hs₁]
    exact hen.processes
  have hne : blockAddr 0 ≠ 0 := hen.record_ne
  have hfree : processGetFreeSlot s₁ = 1 := by
    rw [processGetFreeSlot, processSlots, hprocesses, if_neg (by exact hne), processSlots, hprocesses]
    rfl
  have htail₁ : s₁.taskTail = blockAddr 16 := by
    rw [hs₁]
    exact htail
  obtain ⟨s₂, hswitch', hen', -, -, hp', -, helf₂⟩ := imageDisk_loadSwitch hv rfl (s := s₁) (b := 1043) (i := 1)
    (by rw [hs₁]; exact hocc.disk_eq) (by rw [hs₁]; exact hocc.priv_eq) (by rw [hs₁]; exact hp) (by decide)
    (by rw [hs₁]; exact hocc.next hslot rfl (by decide)) (by decide) hfree (by decide)
    (fun h => absurd (htail₁.symm.trans h) (blockAddr_ne_zero (by decide))) hzero haccept' 1 hmap' (by rw [hs₁]; exact helf₀)
  refine ⟨v, s₁, s₂, hv, hswitch, ?_, hswitch', helf₂, hen', hp', ?_⟩
  · rw [hs₁]
    exact helf₀
  · rw [hen'.processes, hprocesses]
    rfl

/-- 動いていない、割り当ての無いプロセスが終了しても、ほかの記録は変わらない。 -/
theorem AllElf.terminated (h : AllElf s) {depth : Nat} {code : Int} (halloc : (s.procs p).allocations = fun _ => {})
    (htask : (s.procs p).task ≠ 0) (hp : Registered s p) (hcur : s.processCurrent ≠ p)
    (hterm : processTerminate (depth + 1) s p = .ok (code, s')) :
    AllElf s' ∧ s'.processCurrent = s.processCurrent ∧
      s'.processes = fun i => if i = ((s.procs p).id.toNat : Int) then 0 else s.processes i := by
  have hreleased : 0 ≤ (processFreePgmData s p).1 := by
    rw [processFreePgmData_code, h p hp]
    decide
  obtain ⟨s₁, hr, hunlink⟩ := processTerminate_releases halloc htask hreleased hterm
  obtain ⟨heap, tasks, current, head, tail, rfl⟩ := hr.frame
  simp only [processUnlinkWith, if_neg hcur] at hunlink
  cases hunlink
  refine ⟨?_, rfl, rfl⟩
  rintro q ⟨hne, i, h0, hn, heq⟩
  simp only at heq
  split at heq
  · exact absurd heq.symm hne
  · exact h q ⟨hne, i, h0, hn, heq⟩

theorem tidy_boot : Tidy bootHeap := by
  refine ⟨⟨rfl, rfl⟩, guarded_boot, ?_⟩
  intro b _ _
  rw [bootHeap, HeapTable.clear]
  simp only [ite_self]
  rfl

/-! ## 実行の列 -/

/-- 成功した `process_load_switch`、登録されたプロセスへの `process_switch`、登録されたプロセスの `process_terminate`。 -/
inductive TableStep (s s' : Kernel) : Prop
  | load (depth : Nat) (fileName : List Byte) (proc : Word) (h : processLoadSwitch depth s fileName = .ok (0, proc, s'))
  | switch (p : Word) (hp : Registered s p) (h : s' = (processSwitch s p).2)
  | terminate (depth : Nat) (p : Word) (code : Int) (hp : Registered s p) (h : processTerminate depth s p = .ok (code, s'))

def TableRun : Kernel → Kernel → Prop := Relation.ReflTransGen fun s s' => TableStep s s' ∧ ImagesFit s'

/-- 一度は読み込んだ列。 -/
def LoadedRun (s s' : Kernel) : Prop :=
  ∃ s₁ s₂ depth fileName proc, TableRun s s₁ ∧ processLoadSwitch depth s₁ fileName = .ok (0, proc, s₂) ∧ ImagesFit s₂ ∧
    TableRun s₂ s'

theorem TableStep.inv (h : TableStep s s') (hi : TableInv s) (hfits : ImagesFit s') :
    TableInv s' ∧ (Registered s s.processCurrent → Registered s' s'.processCurrent) := by
  cases h with
  | load depth fileName proc h =>
      obtain ⟨hi', hreg⟩ := hi.loadSwitch h hfits
      exact ⟨hi', fun _ => hreg⟩
  | switch p hp h =>
      rw [h]
      exact ⟨hi.switch p, fun _ => hp⟩
  | terminate depth p code hp h => exact hi.terminated hp h hfits

theorem TableRun.inv (hrun : TableRun s s') (hi : TableInv s) :
    TableInv s' ∧ (Registered s s.processCurrent → Registered s' s'.processCurrent) := by
  induction hrun with
  | refl => exact ⟨hi, id⟩
  | tail _ hstep ih =>
      obtain ⟨hi₁, hcur⟩ := ih
      obtain ⟨hi₂, hcur'⟩ := hstep.1.inv hi₁ hstep.2
      exact ⟨hi₂, fun h => hcur' (hcur h)⟩

/-- 何も登録されていない状態からの、どの列の後でも、表の番号は記録の `id` であり、一つのプロセスは一つの番号にだけあり、
`-EISTKN` は表が埋まったときに限る。一度読み込めば、動いているプロセスは登録されている。 -/
theorem tableRun_ok (hempty : ∀ i, 0 ≤ i → i < ENKI_MAX_PROCESSES → s.processes i = 0) (htidy : Tidy s.heap)
    (hstray : Stray s.toFileState) (hrun : TableRun s s') :
    (∀ i p, 0 ≤ i → i < ENKI_MAX_PROCESSES → p ≠ 0 → s'.processes i = p → ((s'.procs p).id.toNat : Int) = i) ∧
    (∀ i j p, 0 ≤ i → i < ENKI_MAX_PROCESSES → 0 ≤ j → j < ENKI_MAX_PROCESSES → p ≠ 0 → s'.processes i = p →
      s'.processes j = p → i = j) ∧
    (∀ depth fileName, (∃ p s₁, processLoad depth s' fileName = .ok (-EISTKN, p, s₁)) ↔ SlotsFull s') ∧
    (LoadedRun s s' → Registered s' s'.processCurrent) := by
  have hi := TableInv.start hempty htidy hstray
  have hi' := (hrun.inv hi).1
  refine ⟨?_, ?_, processLoad_taken_iff s', ?_⟩
  · rintro i p h1 h2 hp rfl
    exact hi'.id i h1 h2 hp
  · intro i j p h1 h2 h3 h4 hp hpi hpj
    exact hi'.id_inj h1 h2 h3 h4 hp hpi hpj
  · rintro ⟨s₁, s₂, depth, fileName, proc, hbefore, hload, hfits, hafter⟩
    obtain ⟨hi₂, hreg⟩ := (hbefore.inv hi).1.loadSwitch hload hfits
    exact (hafter.inv hi₂).2 hreg

/-- 二つのプロセスを読み込み、先のプロセスに切り替えて、後のプロセスを終了する列。 -/
theorem tableRun_ok_two : ∃ (v : Volume) (s₁ s₂ : Kernel), v.disk = imageDisk (elfImage 88 0) ∧
    TableRun (Kernel.boot (stateWith v 0)) s₁ ∧ s₁.processes 0 = blockAddr 0 ∧ s₁.processes 1 = blockAddr 1043 ∧
    processTerminate 1 s₁ (blockAddr 1043) = .ok (0, s₂) ∧ TableRun (Kernel.boot (stateWith v 0)) s₂ ∧
    s₂.processes 0 = blockAddr 0 ∧ s₂.processes 1 = 0 ∧ ((s₂.procs (blockAddr 0)).id.toNat : Int) = 0 ∧
    Registered s₂ s₂.processCurrent := by
  obtain ⟨v, s₀, s, hv, hload₀, helf₀, hload, helf, hen, -, hfirst⟩ := boot_loadTwice
  have hsecond : s.processes 1 = blockAddr 1043 := by
    rw [hen.processes]
    exact if_pos rfl
  have hne : blockAddr 0 ≠ 0 := blockAddr_ne_zero (by decide)
  have hne' : blockAddr 0 ≠ blockAddr 1043 := by decide
  have hreg : Registered s (blockAddr 0) := ⟨hne, 0, Int.le_refl 0, by decide, hfirst⟩
  have hreg' : Registered s (blockAddr 1043) := hen.registered (by decide) (by decide)
  obtain ⟨s₁, hs₁⟩ : ∃ s₁, s₁ = (processSwitch (processSwitch s (blockAddr 1043)).2 (blockAddr 0)).2 := ⟨_, rfl⟩
  have hprocs : s₁.procs = s.procs := by rw [hs₁]; rfl
  have hprocesses : s₁.processes = s.processes := by rw [hs₁]; rfl
  have hcurrent : s₁.processCurrent = blockAddr 0 := by rw [hs₁]; rfl
  have helf₁ : AllElf s₁ := by rw [hs₁]; exact helf
  have hreg₁ : Registered s₁ (blockAddr 1043) := by rw [hs₁]; exact hreg'
  have hafter₁ : TableRun s₀ s₁ :=
    .tail (.single ⟨.load 1 imageName (blockAddr 1043) hload, helf.imagesFit⟩)
      ⟨.switch (blockAddr 0) hreg hs₁, helf₁.imagesFit⟩
  have hrun₁ : TableRun (Kernel.boot (stateWith v 0)) s₁ :=
    .head ⟨.load 1 imageName (blockAddr 0) hload₀, helf₀.imagesFit⟩ hafter₁
  -- 動いているのは先のプロセスなので、後のプロセスの終了は切り替えない
  obtain ⟨s₂, hterm⟩ := processTerminate_total 0 (by rw [hprocs]; exact hen.task) (helf₁ _ hreg₁)
    (by rw [hcurrent]; exact hne')
  obtain ⟨helf₂, -, hprocesses₂⟩ := helf₁.terminated (by rw [hprocs]; exact hen.allocations)
    (by rw [hprocs]; exact hen.task) hreg₁ (by rw [hcurrent]; exact hne') hterm
  rw [hprocs, hen.id, hprocesses] at hprocesses₂
  have hend : TableStep s₁ s₂ ∧ ImagesFit s₂ := ⟨.terminate 1 (blockAddr 1043) 0 hreg₁ hterm, helf₂.imagesFit⟩
  have hrun₂ : TableRun (Kernel.boot (stateWith v 0)) s₂ := hrun₁.tail hend
  have hfirst₂ : s₂.processes 0 = blockAddr 0 := by
    rw [hprocesses₂]
    exact hfirst
  obtain ⟨hid, -, -, hcur⟩ := tableRun_ok (s := Kernel.boot (stateWith v 0)) (fun _ _ _ => rfl) tidy_boot (fun _ _ => rfl) hrun₂
  refine ⟨v, s₁, s₂, hv, hrun₁, by rw [hprocesses]; exact hfirst, by rw [hprocesses]; exact hsecond, hterm, hrun₂, hfirst₂, ?_,
    hid 0 _ (Int.le_refl 0) (by decide) hne hfirst₂,
    hcur ⟨_, s₀, 1, imageName, blockAddr 0, .refl, hload₀, helf₀.imagesFit, hafter₁.tail hend⟩⟩
  rw [hprocesses₂]
  rfl

end EnkiOs
