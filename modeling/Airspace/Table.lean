/-! # Record tables

  The three tables that the guard reads.
-/

namespace Airspace

/-- A table of records. -/
inductive Table
  /-- Borders of countries that are not to be flown in. -/
  | countries
  /-- Airports of the world. -/
  | airports
  /-- Prisons of the world. -/
  | prisons
deriving DecidableEq

namespace Table

/-- All tables. -/
def all : List Table := [countries, airports, prisons]

/-- The name in messages and metrics. -/
def name : Table → String
  | countries => "countries"
  | airports => "airports"
  | prisons => "prisons"

/-- The file that holds the table. -/
def fileName : Table → String
  | countries => "banned_countries.txt"
  | airports => "world_airport_list.txt"
  | prisons => "world_prison_list.txt"

end Table

end Airspace
