/-!
# Constants
-/

namespace Worksheet.Number

/-- The ratio of a circle to its diameter. -/
def pi : Float := 3.141592653589793

end Worksheet.Number
