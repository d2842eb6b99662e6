/-!
The limits and the tolerance that evaluation works with.
-/
namespace Spreadsheet

structure Options where
  /-- How far apart two numbers may be for an approximate match. -/
  tolerance : Float := 1e-4
  /-- The most cells of a range that are visited or tracked. -/
  maxRangeCells : Nat := 1000000
  /-- The most formula cells that are under evaluation at once. -/
  maxDepth : Nat := 256

namespace Options

def standard : Options := {}

/-- A tolerance has no sign. -/
def withTolerance (o : Options) (x : Float) : Options := { o with tolerance := x.abs }

end Options

end Spreadsheet
