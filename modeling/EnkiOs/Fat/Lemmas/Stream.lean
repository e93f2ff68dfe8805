import EnkiOs.Fat.Lemmas.Call
import EnkiOs.Fat.Lemmas.Read

/-!
# 成功した読み取り

読み取りが成功したなら、たどったどのクラスタの次の項目も、列挙された値ではない。
-/

namespace EnkiOs.Volume
open Machine

variable {v : Volume} {start offset : Nat}

/-! ## 一つの区切り -/

end EnkiOs.Volume
