import Switchboard.Text.Json

namespace Switchboard.Text.Json

variable {n : Nat} {cs r rest : List Char}

end Switchboard.Text.Json
