import EnkiOs.Libc.Compare
import EnkiOs.Libc.Stdio
import EnkiOs.Tty.EchoTheorems

/-!
# シェル

`programs/shell/shell.c` と `shell_cmd.c`。端末に渡した文字は、`enki_print` のものも `enki_putchar` のものも、順に `shown` に残す。
`enki_system_run` から先は、ほかのプログラムが動く。
-/

namespace EnkiOs
open Machine Fuel

/-- 文字列の定数と、スタックと静的な領域の配列のアドレス。 -/
structure ShellData where
  prompt : Word
  lineFeed : Word
  echo : Word
  format : Word
  buf : Word
  itoaBuf : Word

/-- `sizeof(buf)` -/
abbrev SHELL_BUF_SIZE : Int := 1024

/-- 一回りの終わり方。`systemRun` は、`enki_system_run(buf)` を呼ぶところである。 -/
inductive ShellTurn
  | done (s : Typing)
  | systemRun (s : Typing)

def shellPrint (fuel : Nat) (a : Word) (s : Typing) : Except Fault Typing := do
  let out ← enkiPrint s.mem.mem fuel a
  return { s with shown := s.shown ++ out }

/-- `"echo "` の五文字を飛ばす。 -/
def cmdEcho (d : ShellData) (fuel : Nat) (cmd : Word) (s : Typing) : Except Fault Typing := do
  let (_, r) ← printf d.itoaBuf d.format [cmd + 5] s.mem.mem fuel
  return { s with mem := { s.mem with mem := r.mem }, shown := s.shown ++ r.output }

def cmdHandler (d : ShellData) (fuel : Nat) (input : Word) (s : Typing) : Except Fault ShellTurn :=
  if (strncmp d.echo input 4).value s.mem.mem = 0 then do return .done (← cmdEcho d fuel input s)
  else return .systemRun s

/-- `main` の一回り。 -/
def shellTurn (d : ShellData) (fuel : Nat) (s : Typing) : Except Fault ShellTurn := do
  let s ← shellPrint fuel d.prompt s
  let s ← enkiTtyReadline d.buf SHELL_BUF_SIZE true s
  let s ← shellPrint fuel d.lineFeed s
  cmdHandler d fuel d.buf s

/-- `echo` だけが続く間の `main` の繰り返し。 -/
def ShellRun (d : ShellData) : Typing → Typing → Prop :=
  Relation.ReflTransGen fun s s' => Fuel.Settles (fun fuel => shellTurn d fuel s) (.done s')

/-! ## 定数 -/

/-- `"> "` -/
def promptText : List Byte := [0x3E, 0x20]

/-- `"echo"` -/
def echoText : List Byte := [0x65, 0x63, 0x68, 0x6F]

/-- `"%s\n"` -/
def echoFormat : List Byte := [0x25, 0x73, 0x0A]

def ShellData.constants (d : ShellData) : List (Word × List Byte) :=
  [(d.prompt, promptText), (d.lineFeed, [0x0A]), (d.echo, echoText), (d.format, echoFormat)]

/-- 定数が、そのアドレスにある。 -/
def ShellData.Loaded (d : ShellData) (mem : Memory) : Prop := ∀ p ∈ d.constants, StrAt mem p.1 p.2

/-- 定数は、`buf` の外にある。 -/
def ShellData.Apart (d : ShellData) : Prop :=
  ∀ p ∈ d.constants, ∀ j ≤ p.2.length, ∀ i ≤ 1023, p.1 + BitVec.ofNat 32 j ≠ d.buf + BitVec.ofNat 32 i

variable {d : ShellData} {mem mem' : Memory} {s : Typing} {text line : List Byte} {a : Word}

/-- 行を読んでも、定数は変わらない。 -/
theorem ShellData.Loaded.outside (h : d.Loaded mem) (hapart : d.Apart) (hsame : SameOutside d.buf 1023 mem mem') :
    d.Loaded mem' :=
  fun p hp => (h p hp).congr fun j hj => hsame _ fun i hi => hapart p hp j hj i hi

/-! ## 一つずつの出力 -/

theorem shellPrint_text (h : StrAt s.mem.mem a text) :
    Fuel.Settles (fun fuel => shellPrint fuel a s) { s with shown := s.shown ++ text } :=
  ⟨text.length + 1, fun _ hfuel => bind_ok.2 ⟨text, enkiPrint_text h hfuel, rfl⟩⟩

/-- `cmd + 5` からの文字列と、改行を出す。 -/
theorem cmdEcho_text (hformat : StrAt s.mem.mem d.format echoFormat) (h : StrAt s.mem.mem (a + 5) text) :
    Fuel.Settles (fun fuel => cmdEcho d fuel a s) { s with shown := s.shown ++ (text ++ [0x0A]) } := by
  obtain ⟨hpercent, -, hconv, -, hfeed, -, hend⟩ := hformat
  refine ⟨text.length + 4, ?_⟩
  intro fuel hfuel
  obtain ⟨k, rfl⟩ : ∃ k, fuel = k + 4 := ⟨fuel - 4, by omega⟩
  have hswitch : printfSwitch (k + 4) d.itoaBuf (s.mem.mem (d.format + 1)) [a + 5] s.mem.mem = .ok (text, [], s.mem.mem) := by
    rw [hconv]
    exact bind_ok.2 ⟨_, rfl, bind_ok.2 ⟨text, enkiPrint_text h (by omega), rfl⟩⟩
  have hrest : printfLoop (k + 4) d.itoaBuf (k + 3) (d.format + 1 + 1) [] s.mem.mem =
      .ok ⟨s.mem.mem, [0x0A], [d.format + 1 + 1, d.format + 1 + 1 + 1]⟩ := by
    rw [printfLoop_char hfeed (by decide) (by decide), printfLoop_end hend]
    rfl
  have hrun : printf d.itoaBuf d.format [a + 5] s.mem.mem (k + 4) =
      .ok (0, ⟨s.mem.mem, text ++ [0x0A], [d.format, d.format + 1, d.format + 1 + 1, d.format + 1 + 1 + 1]⟩) := by
    refine bind_ok.2 ⟨_, ?_, rfl⟩
    rw [printfLoop_percent hpercent, hswitch]
    show (printfLoop (k + 4) d.itoaBuf (k + 3) (d.format + 1 + 1) [] s.mem.mem).bind _ = _
    rw [hrest]
    rfl
  exact bind_ok.2 ⟨_, hrun, rfl⟩

/-- 初めの四文字で、`echo` かどうかを決める。 -/
theorem cmdHandler_echo (hecho : StrAt s.mem.mem d.echo echoText) (hline : StrAt s.mem.mem a line)
    (hword : echoText <+: line) :
    (strncmp d.echo a 4).value s.mem.mem = 0 := by
  refine (strncmpLoop_agree ?_ rfl).2
  intro i hi
  have hlen := hword.length_le
  rw [charAt_text hecho (Nat.le_of_lt hi), charAt_text hline (Nat.le_trans (Nat.le_of_lt hi) hlen)]
  obtain ⟨rest, rfl⟩ := hword
  exact (List.getD_append echoText rest 0 i hi).symm

end EnkiOs
