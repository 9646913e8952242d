/-!
# Schemas

What a data file is expected to say. Some formats can be read without knowing it; in others, what a
piece of text means depends on what is expected in its place.
-/

namespace GalaxyMarket

/-- What is expected in some place. -/
inductive Schema where
  | text
  | bool
  | number
  /-- The name of a case of an enumeration. -/
  | case
  | list (item : Schema)
  | optional (content : Schema)
  /-- A record of a type, with its fields in order. -/
  | record (typeName : String) (fields : List (String × Schema))

end GalaxyMarket
