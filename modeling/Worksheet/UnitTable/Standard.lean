import Worksheet.Number.Constant
import Worksheet.UnitTable.Build
/-!
# Standard units

The units of the SI and the other units that are known without a definition.
-/

namespace Worksheet

namespace UnitDefinition

def base (name : String) (prefixes : Prefixes) (aliases : List String) : UnitDefinition :=
  { name, aliases, prefixes }

def derived (name equation : String) (scale : Float) (prefixes : Prefixes)
    (aliases : List String) : UnitDefinition :=
  { name, equation := some equation, scale, aliases, prefixes }

/-- A unit of an angle or a temperature, which is shown with a degree sign. -/
def degrees (name equation : String) (scale offset : Float) (aliases : List String)
    (display : String) : UnitDefinition :=
  { name, equation := some equation, scale, offset, aliases, display := some display }

/-- The standard units, in an order in which each uses only those before it. -/
def standard : List UnitDefinition :=
  [base "m" .metric ["meter", "metre", "meters"],
    base "kg" .none ["kilogram"],
    base "s" .engineering ["sec", "second", "seconds"],
    base "A" .engineering ["ampere"],
    base "K" .none ["kelvin"],
    base "mol" .engineering ["mole"],
    base "cd" .none ["candela"],
    derived "g" "kg" 1e-3 .engineering ["gram", "grams"],
    derived "L" "m^3" 1e-3 .metric ["liter", "litre", "liters"],
    derived "min" "s" 60 .none ["minute", "minutes"],
    derived "h" "s" 3600 .none ["hr", "hour", "hours"],
    derived "d" "s" 86400 .none ["day", "days"],
    derived "wk" "s" 604800 .none ["week", "weeks"],
    derived "yr" "s" 31557600 .none ["year", "years"],
    derived "Hz" "1/s" 1 .engineering ["hertz"],
    derived "N" "kg*m/s^2" 1 .engineering ["newton"],
    derived "Pa" "N/m^2" 1 .engineering ["pascal"],
    derived "J" "N*m" 1 .engineering ["joule"],
    derived "W" "J/s" 1 .engineering ["watt"],
    derived "C" "A*s" 1 .engineering ["coulomb"],
    derived "V" "W/A" 1 .engineering ["volt"],
    derived "bar" "Pa" 1e5 .none [],
    derived "atm" "Pa" 101325 .none [],
    derived "rad" "1" 1 .none ["radian", "radians"],
    derived "%" "1" 0.01 .none ["percent"],
    derived "ppm" "1" 1e-6 .none [],
    degrees "deg" "1" (Number.pi / 180) 0 ["°", "degree", "degrees"] "°",
    degrees "degC" "K" 1 273.15 ["°C", "celsius"] "°C",
    degrees "degF" "K" (5 / 9) 459.67 ["°F", "fahrenheit"] "°F"]

end UnitDefinition

namespace UnitTable

def withStandard (definitions : List UnitDefinition) :
    Except (List (String × SourceError)) UnitTable :=
  build (UnitDefinition.standard ++ definitions)

def standard : UnitTable := (build UnitDefinition.standard).toOption.getD {}

end UnitTable

end Worksheet
