namespace LiveMaps.Ordered

-- Lists in ascending order of a key, with at most one entry per key. The functions are total on any list;
-- the order is what callers keep by using `insert` alone.
variable {κ α : Type} [LT κ] [DecidableLT κ] [DecidableEq κ]

def insert (key : α → κ) (entry : α) : List α → List α
  | [] => [entry]
  | head :: rest =>
    if key entry < key head then entry :: head :: rest
    else if key entry = key head then entry :: rest
    else head :: insert key entry rest

def ofList (key : α → κ) (entries : List α) : List α :=
  entries.foldl (fun kept entry => insert key entry kept) []

end LiveMaps.Ordered
