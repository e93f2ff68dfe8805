import EnkiOs.Process.Acts
import EnkiOs.Process.OwnedTheorems

/-!
# プロセスの分離

読み込みと切り替え、割り当てと解放、終了のどの並びの後でも、登録されたプロセスのブロックは互いに重ならず、
ほかのプロセスの動きで変わらない。
-/

namespace EnkiOs
open Machine

variable {s s' s₁ : Kernel} {base base' : Word → Nat → Prop} {own : Nat → Prop} {fileName : List Byte} {result : Int}
  {proc p q : Word} {terminate : Kernel → Word → Except Fault (Int × Kernel)} {a : Option Word}

/-! ## 不変条件 -/

/-- 登録されたプロセスの持つブロックが、互いに重ならない。 -/
structure Estates (s : Kernel) (base : Word → Nat → Prop) : Prop where
  tidy : Tidy s.heap
  stray : Stray s.toFileState
  id : ∀ i, 0 ≤ i → i < ENKI_MAX_PROCESSES → s.processes i ≠ 0 → ((s.procs (s.processes i)).id.toNat : Int) = i
  estate : ∀ p, Registered s p → Estate s p (base p)
  apart : ∀ p q, Registered s p → Registered s q → p ≠ q → ∀ b, Owns s p (base p) b → ¬Owns s q (base q) b

/-- `q` のほかが動く変化。`q` は登録されたままで、ブロックも中身も変わらない。 -/
structure Passes (s s' : Kernel) (base base' : Word → Nat → Prop) (q : Word) : Prop where
  registered : Registered s' q
  leaves : Leaves s s' q (base q)
  same : base' q = base q

theorem Leaves.trans {base : Nat → Prop} (h₁ : Leaves s s₁ q base) (h₂ : Leaves s₁ s' q base) : Leaves s s' q base where
  record := h₂.record.trans h₁.record
  pageDir := by
    have hsame := h₂.pageDir
    rw [h₁.record] at hsame
    exact hsame.trans h₁.pageDir
  registers := by
    have hsame := h₂.registers
    rw [h₁.record] at hsame
    exact hsame.trans h₁.registers
  words b hb k hk := (h₂.words b hb k hk).trans (h₁.words b hb k hk)
  elfFiles b hb := (h₂.elfFiles b hb).trans (h₁.elfFiles b hb)
  entries b hb := (h₂.entries b (h₁.owns_iff.2 hb)).trans (h₁.entries b hb)

theorem Leaves.refl (s : Kernel) (q : Word) (base : Nat → Prop) : Leaves s s q base :=
  ⟨rfl, rfl, rfl, fun _ _ _ _ => rfl, fun _ _ => rfl, fun _ _ => rfl⟩

/-- どのプロセスも登録されていない状態。 -/
theorem Estates.start (hempty : ∀ i, 0 ≤ i → i < ENKI_MAX_PROCESSES → s.processes i = 0) (htidy : Tidy s.heap)
    (hstray : Stray s.toFileState) (base : Word → Nat → Prop) : Estates s base := by
  have hnone : ∀ p, ¬Registered s p := by
    rintro p ⟨hne, i, h1, h2, rfl⟩
    exact hne (hempty i h1 h2)
  exact ⟨htidy, hstray, fun i h1 h2 hne => absurd (hempty i h1 h2) hne, fun p hp => absurd hp (hnone p),
    fun p _ hp => absurd hp (hnone p)⟩

theorem Estates.id_inj (hi : Estates s base) {i j : Int} (hi0 : 0 ≤ i) (hin : i < ENKI_MAX_PROCESSES) (hj0 : 0 ≤ j)
    (hjn : j < ENKI_MAX_PROCESSES) (hp : p ≠ 0) (hpi : s.processes i = p) (hpj : s.processes j = p) : i = j := by
  have h1 := hi.id i hi0 hin (hpi ▸ hp)
  have h2 := hi.id j hj0 hjn (hpj ▸ hp)
  rw [hpi] at h1
  rw [hpj] at h2
  exact h1.symm.trans h2

/-- 登録が減るだけで、残るプロセスのブロックに触れなければ、ブロックは重ならないままである。 -/
theorem Estates.left (hi : Estates s base) (htidy : Tidy s'.heap) (hfat : s'.fatFiles = s.fatFiles)
    (hid : ∀ i, 0 ≤ i → i < ENKI_MAX_PROCESSES → s'.processes i ≠ 0 → s'.processes i = s.processes i)
    (hleaves : ∀ p, Registered s' p → Leaves s s' p (base p)) : Estates s' base := by
  have hreg : ∀ p, Registered s' p → Registered s p := by
    rintro p ⟨hne, i, h1, h2, rfl⟩
    exact ⟨hne, i, h1, h2, (hid i h1 h2 hne).symm⟩
  refine ⟨htidy, ?_, ?_, fun p hp => (hi.estate p (hreg p hp)).left (hleaves p hp), ?_⟩
  · intro a ha
    rw [hfat]
    exact hi.stray a ha
  · intro i h1 h2 hne
    have heq := hid i h1 h2 hne
    rw [(hleaves _ ⟨hne, i, h1, h2, rfl⟩).record, heq]
    exact hi.id i h1 h2 (heq ▸ hne)
  · intro p q hp hq hne b hb hb'
    exact hi.apart p q (hreg p hp) (hreg q hq) hne b ((hleaves p hp).owns_iff.1 hb) ((hleaves q hq).owns_iff.1 hb')

/-! ## 切り替え -/

theorem Estates.switch (hi : Estates s base) (p : Word) : Estates (processSwitch s p).2 base :=
  hi.left hi.tidy rfl (fun _ _ _ _ => rfl) fun _ _ => ⟨rfl, rfl, rfl, fun _ _ _ _ => rfl, fun _ _ => rfl, fun _ _ => rfl⟩

theorem Estates.switch_passes (p : Word) (hq : Registered s q) : Passes s (processSwitch s p).2 base base q :=
  ⟨hq, ⟨rfl, rfl, rfl, fun _ _ _ _ => rfl, fun _ _ => rfl, fun _ _ => rfl⟩, rfl⟩

/-! ## 割り当てと解放 -/

/-- 自分のブロックだけに触れる変化の後も、ブロックは重ならない。 -/
theorem Estates.acts (hi : Estates s base) (hp : Registered s p) (h : Acts s s' p (base p)) :
    Estates s' base ∧ ∀ q, Registered s q → q ≠ p → Passes s s' base base q := by
  have hprocesses := h.registry.processes
  have hreg : ∀ q, Registered s' q ↔ Registered s q := by
    intro q
    rw [Registered, Registered, hprocesses]
  have he := hi.estate p hp
  have hleaves : ∀ q, Registered s q → q ≠ p → Leaves s s' q (base q) := fun q hq hne =>
    h.leaves he (hi.estate q hq) hne (hi.apart q p hq hp hne)
  refine ⟨⟨h.tidy, ?_, ?_, ?_, ?_⟩, fun q hq hne => ⟨(hreg q).2 hq, hleaves q hq hne, rfl⟩⟩
  · intro a ha
    rw [h.fatFiles]
    exact hi.stray a ha
  · intro i h1 h2 hne
    rw [hprocesses] at hne ⊢
    have hid := hi.id i h1 h2 hne
    by_cases hip : s.processes i = p
    · rw [hip, h.registry.id, ← hip]
      exact hid
    · rw [h.records _ hip]
      exact hid
  · intro q hq
    by_cases hqp : q = p
    · rw [hqp]
      exact h.estate
    · have hq := (hreg q).1 hq
      exact (hi.estate q hq).left (hleaves q hq hqp)
  · intro q r hq hr hne b hb hb'
    have hq := (hreg q).1 hq
    have hr := (hreg r).1 hr
    by_cases hqp : q = p
    · subst hqp
      have hrp : r ≠ q := Ne.symm hne
      exact h.apart he (hi.estate r hr) hrp (hi.apart r q hr hp hrp) b hb' hb
    · have hb := (hleaves q hq hqp).owns_iff.1 hb
      by_cases hrp : r = p
      · subst hrp
        exact h.apart he (hi.estate q hq) hqp (hi.apart q r hq hp hqp) b ((hleaves q hq hqp).owns_iff.2 hb) hb'
      · exact hi.apart q r hq hr hne b hb ((hleaves r hr hrp).owns_iff.1 hb')

/-- `p` の、1 バイト以上の割り当てか、解放である。 -/
def ProcOp.Of (p : Word) : ProcOp → Prop
  | .malloc x size => x = p ∧ 0 < size.toNat
  | .free x _ => x = p

theorem Estates.call (hi : Estates s base) (hp : Registered s p) {op : ProcOp} (hof : op.Of p) (h : ProcStep s op s') :
    Estates s' base ∧ ∀ q, Registered s q → q ≠ p → Passes s s' base base q := by
  cases h with
  | malloc hserve h =>
      obtain ⟨rfl, hpos⟩ := hof
      exact hi.acts hp ((hi.estate _ hp).malloc hi.tidy hpos hserve h)
  | free h =>
      obtain rfl := hof
      exact hi.acts hp ((hi.estate _ hp).free hi.tidy h)

/-! ## 読み込み -/

theorem Territory.estate (ht : Territory s p own) : Estate s p own := by
  have hnull : ∀ i, ((s.procs p).allocations i).ptr = 0 := fun i => by rw [ht.empty]
  exact ⟨⟨ht.taken, ht.closed⟩, ht.record, ht.task, ht.pageDir, ht.release, ht.released,
    fun i _ hne => absurd (hnull i) hne, fun i _ hne => absurd (hnull i) hne, fun i _ _ _ _ hne => absurd (hnull i) hne,
    fun i _ => by rw [ht.empty]⟩

/-- 自分のブロックのアドレスは、新しい割り当てのものではない。 -/
theorem Estate.ne_made (he : Estate s q own) {x : Word} (hx : ∃ b, own b ∧ x = blockAddr b) {h : Heap}
    (hmade : Made s.heap h p) : x ≠ p := by
  rintro rfl
  obtain ⟨b, hb, heq⟩ := hx
  obtain ⟨hlt, htaken⟩ := he.closed.taken b hb
  obtain ⟨c, hc, heq', hfree⟩ := hmade.fresh
  obtain rfl := blockAddr_inj (Nat.le_of_lt hlt) (Nat.le_of_lt hc) (heq.symm.trans heq')
  rw [Taken, hfree] at htaken
  cases htaken

/-- 成功した読み込みは、新しいタスクのほかの退避したレジスタを変えない。 -/
theorem processLoadSlotWith_registers {slot : Int}
    (h : processLoadSlotWith terminate s fileName slot = .ok (result, proc, s')) (hresult : 0 ≤ result) {t : Word}
    (ht : t ≠ (s'.procs proc).task) : (s'.tasks t).registers = (s.tasks t).registers := by
  obtain ⟨s₁, t', s₂, s₃, hprep, hnew, hne, hmap, rfl⟩ := processLoadSlotWith_ok h hresult
  obtain ⟨fs, files, image, rfl, -⟩ := processPrepareWith_frame hprep
  obtain ⟨words, rfl⟩ := processMapMemory_frame hmap
  exact taskNew_registers hnew hne fun he => ht (by simp [Kernel.setProc, he])

/-- 読み込みは、前からのプロセスのブロックに触れない。 -/
theorem Settles.leaves (hs : Settles s s' proc) (he : Estate s q own) (hrecord : s'.procs q = s.procs q)
    (hregisters : ∀ t, t ≠ (s'.procs proc).task → (s'.tasks t).registers = (s.tasks t).registers) : Leaves s s' q own where
  record := hrecord
  pageDir := hs.pageDirs _ (he.ne_made (he.release _ (he.mem_release (.inl rfl))) hs.task)
  registers := hregisters _ (he.ne_made (he.release _ (he.mem_release (.inl rfl))) hs.task)
  words b hb k hk := by
    obtain ⟨hlt, htaken⟩ := he.closed.taken b hb
    exact hs.words _ ⟨b, hlt, htaken, k, hk, rfl⟩
  elfFiles b hb := by
    obtain ⟨hlt, htaken⟩ := he.closed.taken b hb
    exact hs.shelters.elfFiles b hlt htaken
  entries b hb := by
    obtain ⟨hlt, htaken⟩ := he.owns_taken hb
    exact hs.shelters.heap.same b hlt htaken

/-- 読み込みの後の、プロセスごとの `base`。 -/
def loadBase (s s' : Kernel) (proc : Word) (base : Word → Nat → Prop) (p : Word) : Nat → Prop :=
  if p = proc then settledOwn s s' proc else base p

/-- 成功した読み込みは、新しいプロセスに空いたブロックを渡すだけである。 -/
theorem Estates.load (hi : Estates s base) (h : processLoadWith terminate s fileName = .ok (result, proc, s'))
    (hresult : 0 ≤ result) (hfits : ImageFits (s'.procs proc)) :
    Registered s' proc ∧ Estates s' (loadBase s s' proc base) ∧
      ∀ q, Registered s q → Passes s s' base (loadBase s s' proc base) q := by
  obtain ⟨slot, h1, h2, hslot, hen, hload⟩ := processLoadWith_enrolls h hresult
  have hset := processLoadSlotWith_settles hi.tidy hi.stray hload hresult hfits
  -- 前から登録されていたプロセスの記録は塞がったブロックにあるので、新しい記録とは違う。
  have hold : ∀ q, Registered s q → q ≠ proc := fun q hq => (hi.estate q hq).ne_made (hi.estate q hq).record hset.record
  have hreg : ∀ q, Registered s' q → q ≠ proc → Registered s q := fun q => hen.earlier
  have hstays : ∀ q, Registered s q → Registered s' q := by
    rintro q ⟨hne, i, hi0, hin, rfl⟩
    refine ⟨hne, i, hi0, hin, ?_⟩
    rw [hen.processes]
    refine if_neg ?_
    rintro rfl
    exact hne hslot
  have hleaves : ∀ q, Registered s q → Leaves s s' q (base q) := fun q hq =>
    hset.leaves (hi.estate q hq) (hen.others q (hold q hq)) fun _ => processLoadSlotWith_registers hload hresult
  have hsame : ∀ q, q ≠ proc → loadBase s s' proc base q = base q := fun q hq => if_neg hq
  have hnew : loadBase s s' proc base proc = settledOwn s s' proc := if_pos rfl
  have hestate : Estate s' proc (settledOwn s s' proc) := (hset.territory hen.allocations).estate
  -- 新しいプロセスのブロックは、どれも空いていた。
  have hfresh : ∀ b, Owns s' proc (settledOwn s s' proc) b → s.heap.table.freeAt b = true := by
    rintro b (hb | ⟨i, -, hne, -⟩)
    · exact (settledOwn_free hb).2
    · rw [hen.allocations] at hne
      exact absurd rfl hne
  have hnot : ∀ q b, Registered s q → Owns s' q (base q) b → ¬Owns s' proc (settledOwn s s' proc) b := by
    intro q b hq hb hb'
    have htaken := ((hi.estate q hq).owns_taken ((hleaves q hq).owns_iff.1 hb)).2
    rw [Taken, hfresh b hb'] at htaken
    cases htaken
  refine ⟨hen.registered h1 h2, ⟨hset.shelters.tidy, hset.shelters.stray hi.stray, ?_, ?_, ?_⟩,
    fun q hq => ⟨hstays q hq, hleaves q hq, hsame q (hold q hq)⟩⟩
  · intro i hi0 hin hne
    rw [hen.processes] at hne ⊢
    simp only at hne ⊢
    split
    · rename_i heq
      rw [hen.id, ← heq, BitVec.toNat_ofInt]
      simp only [ENKI_MAX_PROCESSES] at hin
      omega
    · rename_i heq
      rw [if_neg heq] at hne
      rw [hen.others _ (hold _ ⟨hne, i, hi0, hin, rfl⟩)]
      exact hi.id i hi0 hin hne
  · intro q hq
    by_cases hqp : q = proc
    · rw [hqp, hnew]
      exact hestate
    · rw [hsame q hqp]
      exact (hi.estate q (hreg q hq hqp)).left (hleaves q (hreg q hq hqp))
  · intro q r hq hr hne b hb hb'
    by_cases hqp : q = proc
    · have hrp : r ≠ proc := fun he => hne (hqp.trans he.symm)
      rw [hqp, hnew] at hb
      rw [hsame r hrp] at hb'
      exact hnot r b (hreg r hr hrp) hb' hb
    · rw [hsame q hqp] at hb
      by_cases hrp : r = proc
      · rw [hrp, hnew] at hb'
        exact hnot q b (hreg q hq hqp) hb hb'
      · rw [hsame r hrp] at hb'
        have hq := hreg q hq hqp
        have hr := hreg r hr hrp
        exact hi.apart q r hq hr hne b ((hleaves q hq).owns_iff.1 hb) ((hleaves r hr).owns_iff.1 hb')

theorem Passes.trans {base₁ : Word → Nat → Prop} (h₁ : Passes s s₁ base base₁ q) (h₂ : Passes s₁ s' base₁ base' q) :
    Passes s s' base base' q where
  registered := h₂.registered
  leaves := by
    have hleaves := h₂.leaves
    rw [h₁.same] at hleaves
    exact h₁.leaves.trans hleaves
  same := h₂.same.trans h₁.same

theorem Estates.loadSwitch (hi : Estates s base) (h : processLoadSwitchWith terminate s fileName = .ok (0, proc, s'))
    (hfits : ImagesFit s') :
    ∃ base', Estates s' base' ∧ ∀ q, Registered s q → Passes s s' base base' q := by
  obtain ⟨s₁, hload, rfl⟩ := processLoadSwitchWith_ok h
  obtain ⟨slot, h1, h2, -, hen, -⟩ := processLoadWith_enrolls hload (Int.le_refl 0)
  obtain ⟨-, hi₁, hpasses⟩ := hi.load hload (Int.le_refl 0) (hfits proc (hen.registered h1 h2))
  exact ⟨_, hi₁.switch proc, fun q hq => (hpasses q hq).trans (Estates.switch_passes proc (hpasses q hq).registered)⟩

/-! ## 終了 -/

/-- 終了は、自分のブロックを返し、記録を外して、そこで返るか、別のプロセスに切り替えるか、シェルを読み込む。 -/
theorem Estates.unlinked (hi : Estates s base) (hp : Registered s p) {depth : Nat} {code : Int}
    (h : processTerminate (depth + 1) s p = .ok (code, s')) :
    ∃ s₃, Estates s₃ base ∧ (∀ q, Registered s₃ q → Registered s q ∧ q ≠ p) ∧
      (∀ q, Registered s q → q ≠ p → Passes s s₃ base base q) ∧
      (s' = s₃ ∨ (∃ q, s' = (processSwitch s₃ q).2) ∨
        ∃ proc fileName, processLoadSwitch depth s₃ fileName = .ok (0, proc, s')) := by
  obtain ⟨hne, i, hi0, hin, hpi⟩ := show Registered s p from hp
  have he := hi.estate p hp
  obtain ⟨s₂, htouches, hunlink⟩ := he.terminate hi.tidy h
  have hid : ((s₂.procs p).id.toNat : Int) = i := by
    have hrec := hi.id i hi0 hin (hpi ▸ hne)
    rw [hpi] at hrec
    rw [htouches.registry.id]
    exact hrec
  obtain ⟨s₃, hs₃⟩ : ∃ s₃ : Kernel, { s₂ with processes := fun j => if j = i then 0 else s₂.processes j } = s₃ := ⟨_, rfl⟩
  have hprocesses : ∀ j, s₃.processes j = if j = i then 0 else s.processes j := by
    intro j
    rw [← hs₃, ← htouches.registry.processes]
  have hothers : ∀ q, Registered s q → q ≠ p → Leaves s s₃ q (base q) := by
    intro q hq hqp
    have hleaves := htouches.leaves he (hi.estate q hq) hqp (hi.apart q p hq hp hqp)
    rw [← hs₃]
    exact ⟨hleaves.record, hleaves.pageDir, hleaves.registers, hleaves.words, hleaves.elfFiles, hleaves.entries⟩
  have hstays : ∀ q, Registered s q → q ≠ p → Registered s₃ q := by
    rintro q ⟨hq, j, hj0, hjn, rfl⟩ hqp
    refine ⟨hq, j, hj0, hjn, ?_⟩
    rw [hprocesses]
    refine if_neg ?_
    rintro rfl
    exact hqp hpi
  have hremain : ∀ q, Registered s₃ q → Registered s q ∧ q ≠ p := by
    rintro q ⟨hq, j, hj0, hjn, heq⟩
    rw [hprocesses] at heq
    split at heq
    · exact absurd heq.symm hq
    · rename_i hji
      refine ⟨⟨hq, j, hj0, hjn, heq⟩, ?_⟩
      rintro rfl
      exact hji (hi.id_inj hj0 hjn hi0 hin hq heq hpi)
  refine ⟨s₃, ?_, hremain, fun q hq hqp => ⟨hstays q hq hqp, hothers q hq hqp, rfl⟩, ?_⟩
  · refine hi.left ?_ ?_ ?_ fun q hq => hothers q (hremain q hq).1 (hremain q hq).2
    · rw [← hs₃]
      exact htouches.tidy
    · rw [← hs₃]
      exact htouches.fatFiles
    · intro j _ _ hj
      rw [hprocesses] at hj ⊢
      split at hj
      · exact absurd rfl hj
      · rename_i hji
        exact if_neg hji
  · simp only [processUnlinkWith, hid, hs₃] at hunlink
    split at hunlink
    · rcases processSwitchToAnyWith_cases hunlink with ⟨j, -, -, -, rfl⟩ | ⟨proc, hload⟩
      · exact .inr (.inl ⟨_, rfl⟩)
      · exact .inr (.inr ⟨proc, _, hload⟩)
    · cases hunlink
      exact .inl rfl

theorem Estates.terminated (hi : Estates s base) (hp : Registered s p) {depth : Nat} {code : Int}
    (h : processTerminate depth s p = .ok (code, s')) (hfits : ImagesFit s') :
    ∃ base', Estates s' base' ∧ ∀ q, Registered s q → q ≠ p → Passes s s' base base' q := by
  cases depth with
  | zero => cases h
  | succ depth =>
      obtain ⟨s₃, hi₃, -, hpasses, hend⟩ := hi.unlinked hp h
      rcases hend with rfl | ⟨r, rfl⟩ | ⟨proc, fileName, hload⟩
      · exact ⟨base, hi₃, hpasses⟩
      · exact ⟨base, hi₃.switch r, fun q hq hqp =>
          (hpasses q hq hqp).trans (Estates.switch_passes r (hpasses q hq hqp).registered)⟩
      · obtain ⟨base', hi', hrest⟩ := hi₃.loadSwitch hload hfits
        exact ⟨base', hi', fun q hq hqp => (hpasses q hq hqp).trans (hrest q (hpasses q hq hqp).registered)⟩

/-! ## 実行の列 -/

/-- カーネルの一歩と、そこで自分のブロックを変えてよいプロセス。 -/
inductive KernelStep (s s' : Kernel) : Option Word → Prop
  | load (depth : Nat) (fileName : List Byte) (proc : Word) (h : processLoadSwitch depth s fileName = .ok (0, proc, s')) :
      KernelStep s s' none
  | switch (p : Word) (hp : Registered s p) (h : s' = (processSwitch s p).2) : KernelStep s s' none
  | call (p : Word) (op : ProcOp) (hp : Registered s p) (hof : op.Of p) (h : ProcStep s op s') : KernelStep s s' (some p)
  | terminate (depth : Nat) (p : Word) (code : Int) (hp : Registered s p) (h : processTerminate depth s p = .ok (code, s')) :
      KernelStep s s' (some p)

def KernelRun : Kernel → Kernel → Prop := Relation.ReflTransGen fun s s' => (∃ a, KernelStep s s' a) ∧ ImagesFit s'

/-- `q` のほかのプロセスだけが動く列。 -/
def BesidesRun (q : Word) : Kernel → Kernel → Prop :=
  Relation.ReflTransGen fun s s' => (∃ a, KernelStep s s' a ∧ a ≠ some q) ∧ ImagesFit s'

theorem KernelStep.estates (h : KernelStep s s' a) (hi : Estates s base) (hfits : ImagesFit s') :
    ∃ base', Estates s' base' ∧ ∀ q, Registered s q → a ≠ some q → Passes s s' base base' q := by
  cases h with
  | load depth fileName proc h =>
      obtain ⟨base', hi', hpasses⟩ := hi.loadSwitch h hfits
      exact ⟨base', hi', fun q hq _ => hpasses q hq⟩
  | switch p hp h =>
      rw [h]
      exact ⟨base, hi.switch p, fun q hq _ => Estates.switch_passes p hq⟩
  | call p op hp hof h =>
      obtain ⟨hi', hpasses⟩ := hi.call hp hof h
      exact ⟨base, hi', fun q hq hne => hpasses q hq fun he => hne (congrArg some he.symm)⟩
  | terminate depth p code hp h =>
      obtain ⟨base', hi', hpasses⟩ := hi.terminated hp h hfits
      exact ⟨base', hi', fun q hq hne => hpasses q hq fun he => hne (congrArg some he.symm)⟩

theorem KernelRun.estates (hrun : KernelRun s s') (hi : Estates s base) : ∃ base', Estates s' base' := by
  induction hrun with
  | refl => exact ⟨base, hi⟩
  | tail _ hstep ih =>
      obtain ⟨base₁, hi₁⟩ := ih
      obtain ⟨⟨a, hstep⟩, hfits⟩ := hstep
      obtain ⟨base', hi', -⟩ := hstep.estates hi₁ hfits
      exact ⟨base', hi'⟩

theorem BesidesRun.passes (hrun : BesidesRun q s s') (hi : Estates s base) (hq : Registered s q) :
    ∃ base', Estates s' base' ∧ Passes s s' base base' q := by
  induction hrun with
  | refl => exact ⟨base, hi, hq, .refl s q (base q), rfl⟩
  | tail _ hstep ih =>
      obtain ⟨base₁, hi₁, hpasses⟩ := ih
      obtain ⟨⟨a, hstep, hne⟩, hfits⟩ := hstep
      obtain ⟨base', hi', hrest⟩ := hstep.estates hi₁ hfits
      exact ⟨base', hi', hpasses.trans (hrest q hpasses.registered hne)⟩

/-- 何も登録されていない状態からの、どの列の後でも、登録されたプロセスのブロックは互いに重ならない。`q` のほかのプロセスが
どれだけ動いても、`q` は登録されたままで、記録も、退避したレジスタも、ページの表も、ブロックも変わらない。 -/
theorem kernelRun_isolates (hempty : ∀ i, 0 ≤ i → i < ENKI_MAX_PROCESSES → s.processes i = 0) (htidy : Tidy s.heap)
    (hstray : Stray s.toFileState) (hrun : KernelRun s s') :
    ∃ base : Word → Nat → Prop, (∀ p, Registered s' p → Estate s' p (base p)) ∧
      (∀ p q, Registered s' p → Registered s' q → p ≠ q → ∀ b, Owns s' p (base p) b → ¬Owns s' q (base q) b) ∧
      ∀ q s₂, Registered s' q → BesidesRun q s' s₂ → Registered s₂ q ∧ Leaves s' s₂ q (base q) := by
  obtain ⟨base, hi⟩ := hrun.estates (Estates.start hempty htidy hstray fun _ _ => False)
  refine ⟨base, hi.estate, hi.apart, ?_⟩
  intro q s₂ hq hothers
  obtain ⟨base', -, hpasses⟩ := hothers.passes hi hq
  exact ⟨hpasses.registered, hpasses.leaves⟩

/-- 二つのプロセスを読み込み、後のプロセスが割り当てて、先のプロセスに切り替えても、先のプロセスのブロックは変わらない。 -/
theorem kernelRun_isolates_two : ∃ (v : Volume) (s s' : Kernel) (base : Word → Nat → Prop),
    v.disk = imageDisk (elfImage 88 0) ∧ KernelRun (Kernel.boot (stateWith v 0)) s ∧
    Registered s (blockAddr 0) ∧ Registered s (blockAddr 1043) ∧
    (∀ b, Owns s (blockAddr 0) (base (blockAddr 0)) b → ¬Owns s (blockAddr 1043) (base (blockAddr 1043)) b) ∧
    processMalloc s (blockAddr 1043) 1 = .ok (blockAddr 2086, s') ∧
    BesidesRun (blockAddr 0) s (processSwitch s' (blockAddr 0)).2 ∧
    Leaves s (processSwitch s' (blockAddr 0)).2 (blockAddr 0) (base (blockAddr 0)) := by
  obtain ⟨v, s₀, s₁, hv, hload₀, helf₀, hload, helf, hen, hp, hfirst⟩ := boot_loadTwice
  obtain ⟨s, hs⟩ : ∃ s, s = (processSwitch s₁ (blockAddr 1043)).2 := ⟨_, rfl⟩
  rw [← hs] at hload
  have hreg : Registered s (blockAddr 0) := by
    rw [hs]
    exact ⟨blockAddr_ne_zero (by decide), 0, Int.le_refl 0, by decide, hfirst⟩
  have hreg' : Registered s (blockAddr 1043) := by
    rw [hs]
    exact hen.registered (by decide) (by decide)
  have helf' : AllElf s := by
    rw [hs]
    exact helf
  have hrun : KernelRun (Kernel.boot (stateWith v 0)) s :=
    .tail (.single ⟨⟨none, .load 1 imageName (blockAddr 0) hload₀⟩, helf₀.imagesFit⟩)
      ⟨⟨none, .load 1 imageName (blockAddr 1043) hload⟩, helf'.imagesFit⟩
  -- 後のプロセスの割り当て
  have hblank : (s.procs (blockAddr 1043)).allocations = fun _ => {} := by
    rw [hs]
    exact hen.allocations
  have htask : (s.procs (blockAddr 1043)).task ≠ 0 := by
    rw [hs]
    exact hen.task
  have hpacked : Packed s.heap 2086 := by
    rw [hs]
    exact hp
  obtain ⟨hserve, hmalloc, -⟩ := processMalloc_packed hpacked (by decide) htask
    (processFindFreeAlloc_first (by rw [hblank]))
  have helf₂ : AllElf (mallocState s (blockAddr 1043) 1 0) := by
    intro q hq
    have htype := helf' q hq
    by_cases hqp : q = blockAddr 1043
    · rw [hqp] at htype ⊢
      simpa [mallocState, Kernel.setProc] using htype
    · rwa [mallocState_other 0 hqp]
  have hcall : KernelStep s (mallocState s (blockAddr 1043) 1 0) (some (blockAddr 1043)) :=
    .call (blockAddr 1043) (.malloc (blockAddr 1043) 1) hreg' ⟨rfl, by decide⟩ (.malloc hserve hmalloc)
  have hbesides : BesidesRun (blockAddr 0) s (processSwitch (mallocState s (blockAddr 1043) 1 0) (blockAddr 0)).2 :=
    .tail (.single ⟨⟨_, hcall, by decide⟩, helf₂.imagesFit⟩)
      ⟨⟨none, .switch (blockAddr 0) hreg rfl, fun he => by cases he⟩, helf₂.imagesFit⟩
  obtain ⟨base, -, hapart, hleaves⟩ :=
    kernelRun_isolates (s := Kernel.boot (stateWith v 0)) (fun _ _ _ => rfl) tidy_boot (fun _ _ => rfl) hrun
  exact ⟨v, s, _, base, hv, hrun, hreg, hreg', hapart _ _ hreg hreg' (by decide), hmalloc, hbesides,
    (hleaves _ _ hreg hbesides).2⟩

end EnkiOs
