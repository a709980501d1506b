import Worksheet.UnitTable.Standard
/-!
# The standard table

The table that the standard definitions make, written out with all prefixes and other names. Facts
about fixed documents are computed from it, so that the definitions need not be read each time.
-/

namespace Worksheet.UnitTable

deriving instance DecidableEq for UnitTable

/-- Units of one dimension with their scales, which are shown under their symbols. -/
def measuring (dimension : Factors) (scales : List (String × Float)) : List (String × UnitEntry) :=
  scales.map fun (symbol, scale) => (symbol, ⟨symbol, symbol, .ofList dimension, scale, 0⟩)

/-- All standard units, the newest first. -/
def listedEntries : List (String × UnitEntry) :=
  [[("degF", ⟨"degF", "°F", .unit "K", 5 / 9, 459.67⟩),
      ("degC", ⟨"degC", "°C", .unit "K", 1, 273.15⟩),
      ("deg", ⟨"deg", "°", .one, Number.pi / 180, 0⟩)],
    measuring [] [("ppm", 1e-6), ("%", 0.01), ("rad", 1)],
    measuring [("kg", 1), ("m", -1), ("s", -2)] [("atm", 101325), ("bar", 1e5)],
    measuring [("A", -1), ("kg", 1), ("m", 2), ("s", -3)]
      [("nV", 1e-9), ("uV", 1e-6), ("µV", 1e-6), ("mV", 1e-3), ("kV", 1e3), ("MV", 1e6),
        ("GV", 1e9), ("V", 1)],
    measuring [("A", 1), ("s", 1)]
      [("nC", 1e-9), ("uC", 1e-6), ("µC", 1e-6), ("mC", 1e-3), ("kC", 1e3), ("MC", 1e6),
        ("GC", 1e9), ("C", 1)],
    measuring [("kg", 1), ("m", 2), ("s", -3)]
      [("nW", 1e-9), ("uW", 1e-6), ("µW", 1e-6), ("mW", 1e-3), ("kW", 1e3), ("MW", 1e6),
        ("GW", 1e9), ("W", 1)],
    measuring [("kg", 1), ("m", 2), ("s", -2)]
      [("nJ", 1e-9), ("uJ", 1e-6), ("µJ", 1e-6), ("mJ", 1e-3), ("kJ", 1e3), ("MJ", 1e6),
        ("GJ", 1e9), ("J", 1)],
    measuring [("kg", 1), ("m", -1), ("s", -2)]
      [("nPa", 1e-9), ("uPa", 1e-6), ("µPa", 1e-6), ("mPa", 1e-3), ("kPa", 1e3), ("MPa", 1e6),
        ("GPa", 1e9), ("Pa", 1)],
    measuring [("kg", 1), ("m", 1), ("s", -2)]
      [("nN", 1e-9), ("uN", 1e-6), ("µN", 1e-6), ("mN", 1e-3), ("kN", 1e3), ("MN", 1e6),
        ("GN", 1e9), ("N", 1)],
    measuring [("s", -1)]
      [("nHz", 1e-9), ("uHz", 1e-6), ("µHz", 1e-6), ("mHz", 1e-3), ("kHz", 1e3), ("MHz", 1e6),
        ("GHz", 1e9), ("Hz", 1)],
    measuring [("s", 1)] [("yr", 31557600), ("wk", 604800), ("d", 86400), ("h", 3600), ("min", 60)],
    measuring [("m", 3)]
      [("nL", 1e-3 * 1e-9), ("uL", 1e-9), ("µL", 1e-9), ("mL", 1e-6), ("cL", 1e-5), ("dL", 1e-4),
        ("kL", 1), ("ML", 1e3), ("GL", 1e6), ("L", 1e-3)],
    measuring [("kg", 1)]
      [("ng", 1e-3 * 1e-9), ("ug", 1e-9), ("µg", 1e-9), ("mg", 1e-6), ("Mg", 1e3), ("Gg", 1e6),
        ("g", 1e-3)],
    measuring [("cd", 1)] [("cd", 1)],
    measuring [("mol", 1)]
      [("nmol", 1e-9), ("umol", 1e-6), ("µmol", 1e-6), ("mmol", 1e-3), ("kmol", 1e3),
        ("Mmol", 1e6), ("Gmol", 1e9), ("mol", 1)],
    measuring [("K", 1)] [("K", 1)],
    measuring [("A", 1)]
      [("nA", 1e-9), ("uA", 1e-6), ("µA", 1e-6), ("mA", 1e-3), ("kA", 1e3), ("MA", 1e6),
        ("GA", 1e9), ("A", 1)],
    measuring [("s", 1)]
      [("ns", 1e-9), ("us", 1e-6), ("µs", 1e-6), ("ms", 1e-3), ("ks", 1e3), ("Ms", 1e6),
        ("Gs", 1e9), ("s", 1)],
    measuring [("kg", 1)] [("kg", 1)],
    measuring [("m", 1)]
      [("nm", 1e-9), ("um", 1e-6), ("µm", 1e-6), ("mm", 1e-3), ("cm", 1e-2), ("dm", 1e-1),
        ("km", 1e3), ("Mm", 1e6), ("Gm", 1e9), ("m", 1)]].flatten

/-- The symbols that may be shown instead of one without prefix. -/
def listedFamilies : List (String × List String) :=
  [("V", ["V", "GV", "MV", "kV", "mV", "µV", "nV"]),
    ("C", ["C", "GC", "MC", "kC", "mC", "µC", "nC"]),
    ("W", ["W", "GW", "MW", "kW", "mW", "µW", "nW"]),
    ("J", ["J", "GJ", "MJ", "kJ", "mJ", "µJ", "nJ"]),
    ("Pa", ["Pa", "GPa", "MPa", "kPa", "mPa", "µPa", "nPa"]),
    ("N", ["N", "GN", "MN", "kN", "mN", "µN", "nN"]),
    ("Hz", ["Hz", "GHz", "MHz", "kHz", "mHz", "µHz", "nHz"]),
    ("L", ["L", "GL", "ML", "kL", "mL", "µL", "nL"]),
    ("g", ["g", "Gg", "Mg", "kg", "mg", "µg", "ng"]),
    ("mol", ["mol", "Gmol", "Mmol", "kmol", "mmol", "µmol", "nmol"]),
    ("A", ["A", "GA", "MA", "kA", "mA", "µA", "nA"]),
    ("s", ["s", "Gs", "Ms", "ks", "ms", "µs", "ns"]),
    ("m", ["m", "Gm", "Mm", "km", "mm", "µm", "nm"])]

/-- The standard table, written out. -/
def listed : UnitTable where
  aliases :=
    [("degF", ["fahrenheit", "°F"]), ("degC", ["celsius", "°C"]),
      ("deg", ["degrees", "degree", "°"]), ("%", ["percent"]), ("rad", ["radians", "radian"]),
      ("V", ["volt"]), ("C", ["coulomb"]), ("W", ["watt"]), ("J", ["joule"]), ("Pa", ["pascal"]),
      ("N", ["newton"]), ("Hz", ["hertz"]), ("yr", ["years", "year"]), ("wk", ["weeks", "week"]),
      ("d", ["days", "day"]), ("h", ["hours", "hour", "hr"]), ("min", ["minutes", "minute"]),
      ("L", ["liters", "litre", "liter"]), ("g", ["grams", "gram"]), ("cd", ["candela"]),
      ("mol", ["mole"]), ("K", ["kelvin"]), ("A", ["ampere"]),
      ("s", ["seconds", "second", "sec"]), ("kg", ["kilogram"]),
      ("m", ["meters", "metre", "meter"])].flatMap
      fun (symbol, others) => others.map (·, symbol)
  entries := listedEntries
  families := listedFamilies
  stems := listedFamilies.flatMap fun (stem, family) => family.reverse.map (·, stem)

set_option maxRecDepth 100000 in
/-- What the standard definitions make is the table that is written out. -/
theorem standard_eq_listed : standard = listed := by decide +kernel

end Worksheet.UnitTable
