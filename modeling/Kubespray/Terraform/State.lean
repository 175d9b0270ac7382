import Kubespray.Library.OrderedDict
import Kubespray.Text

/-!
# Terraform State Files

`contrib/terraform/terraform.py` reads state files of two formats. Version 3 lists the
attributes of a resource under flat keys, such as `network.0.port`. Version 4 nests them,
and `convert_to_v3_structure` flattens them again. It gives every string that is an
element of a list a key of its own, which it ends with a random number.

Python's `str` of a list or of a dictionary is a parameter, `repr`. Of a floating-point
number the script can observe its integer part, whether there is a fraction, and its text.

Left out are the fields of a version 4 record that no later function reads: `type`,
`provider`, `depends_on`, and `id` and `meta` below `primary`.
-/

namespace Kubespray.Terraform

open OrderedDict

/-- A value of a state file. The keys of an object are taken to be pairwise distinct. -/
inductive Json
  | null
  | bool (b : Bool)
  | int (n : ℤ)
  | float (whole : ℤ) (fraction : Bool) (literal : Text)
  | str (t : Text)
  | arr (xs : List Json)
  | obj (fields : List (Text × Json))

/-- The exceptions that the script may end with. -/
inductive Raised
  | keyError (key : Text)
  | valueError
  | typeError
  | attributeError
  | indexError

/-- The attributes of a resource, and the variables of a host. -/
abbrev Attributes := OrderedDict Text Json

/-- A decimal numeral. -/
def numeral (n : ℕ) : Text :=
  Nat.toDigits 10 n

/-- `str` of an integer. -/
def intText (n : ℤ) : Text :=
  if n < 0 then '-' :: numeral n.natAbs else numeral n.natAbs

/-- `str(value)`. -/
def pyStr (repr : Json → Text) : Json → Text
  | .null => "None".toList
  | .bool true => "True".toList
  | .bool false => "False".toList
  | .int n => intText n
  | .float _ _ literal => literal
  | .str t => t
  | .arr xs => repr (.arr xs)
  | .obj fields => repr (.obj fields)

/-- What a dictionary compares its keys by. Numbers that are equal are the same key. -/
inductive Key
  | none
  | int (n : ℤ)
  | float (literal : Text)
  | str (t : Text)
  deriving DecidableEq

/-- A value as a key; lists and dictionaries have no hash. -/
def Json.key : Json → Except Raised Key
  | .null => .ok .none
  | .bool b => .ok (.int (if b then 1 else 0))
  | .int n => .ok (.int n)
  | .float whole false _ => .ok (.int whole)
  | .float _ true literal => .ok (.float literal)
  | .str t => .ok (.str t)
  | .arr _ | .obj _ => .error .typeError

/-- `source[key]`. -/
def subscript (source : Attributes) (key : Text) : Except Raised Json :=
  match source.get? key with
  | some v => .ok v
  | none => .error (.keyError key)

/-! ### Flattening -/

mutual

/-- `convert_to_v3_structure`, given the random numbers and how many of them have been
drawn. Only strings and dictionaries can be flattened. -/
def convert (draw : ℕ → ℕ) (n : ℕ) (start : Text) : Json → Except Raised (Attributes × ℕ)
  | .str t => .ok (OrderedDict.empty.set (start ++ numeral (draw n)) (.str t), n + 1)
  | .obj fields => convertFields draw n start OrderedDict.empty fields
  | .null | .bool _ | .int _ | .float _ _ _ | .arr _ => .error .attributeError

/-- Its loop over the items of a dictionary. -/
def convertFields (draw : ℕ → ℕ) (n : ℕ) (start : Text) (result : Attributes) :
    List (Text × Json) → Except Raised (Attributes × ℕ)
  | [] => .ok (result, n)
  | (key, .arr xs) :: rest => do
    let result :=
      if xs = [] then result else result.set (start ++ key ++ ".#".toList) (.int xs.length)
    let (result, n) ← convertElements draw n (start ++ key) 0 result xs
    convertFields draw n start result rest
  | (key, .obj fields) :: rest =>
    let result := result.set (start ++ key ++ ".%".toList) (.int fields.length)
    convertFields draw n start
      (fields.foldl (fun acc e => acc.set (start ++ key ++ '.' :: e.1) e.2) result) rest
  | (key, value) :: rest => convertFields draw n start (result.set (start ++ key) value) rest

/-- Its loop over the elements of a list. -/
def convertElements (draw : ℕ → ℕ) (n : ℕ) (path : Text) (i : ℕ) (result : Attributes) :
    List Json → Except Raised (Attributes × ℕ)
  | [] => .ok (result, n)
  | v :: vs => do
    let (entries, n) ← convert draw n (path ++ '.' :: numeral i ++ ['.']) v
    convertElements draw n path (i + 1) (result.overlay entries) vs

end

/-! ### State files -/

/-- One instance of a version 4 resource. -/
structure Instance where
  /-- The key `index_key`, of resources with `count` or `for_each`. -/
  indexKey : Option Json
  attributes : Json

/-- A version 4 resource. -/
structure Resource where
  type : Text
  name : Text
  provider : Text
  instances : List Instance

/-- A version 3 module: its path, and its resources with their attributes by key. -/
structure Module where
  path : List Text
  resources : List (Text × Attributes)

/-- A state file. -/
inductive State
  | v3 (modules : List Module)
  | v4 (resources : List Resource)
  | unsupported (version : ℤ)

/-- What one step of `iterresources` works on: the attributes of a version 3 resource, the
attributes of a version 4 instance, or something that makes it raise. -/
inductive Entry
  | flat (moduleName key : Text) (attributes : Attributes)
  | nested (moduleName key : Text) (attributes : Json)
  | failing (e : Raised)

/-- The entries of a module. -/
def Module.entries (m : Module) : List Entry :=
  match m.path.getLast? with
  | some name => m.resources.map fun r => .flat name r.1 r.2
  | none => [.failing .indexError]

/-- The key of an instance: `type.name`, and its index if it has one. -/
def Resource.key (repr : Json → Text) (r : Resource) (instance_ : Instance) : Text :=
  r.type ++ '.' :: r.name ++
    match instance_.indexKey with
    | some index => '.' :: pyStr repr index
    | none => []

/-- The entries of a version 4 resource. -/
def Resource.entries (repr : Json → Text) (r : Resource) : List Entry :=
  r.instances.map fun instance_ =>
    .nested ((r.provider.splitOn '.').getLast?.getD []) (r.key repr instance_)
      instance_.attributes

/-- The entries of a state file. -/
def State.entries (repr : Json → Text) : State → List Entry
  | .v3 modules => modules.flatMap Module.entries
  | .v4 resources => resources.flatMap (Resource.entries repr)
  | .unsupported version =>
    [.failing (.keyError ("tfstate version ".toList ++ intText version ++
      " not supported".toList))]

/-- What `iterresources` yields. -/
structure Record where
  moduleName : Text
  key : Text
  attributes : Attributes

/-- One step of `iterresources`, given the random numbers it may draw. -/
def Entry.read (draw : ℕ → ℕ) : Entry → Except Raised Record
  | .flat moduleName key attributes => .ok ⟨moduleName, key, attributes⟩
  | .nested moduleName key (.obj fields) => do
    let (attributes, _) ← convert draw 0 [] (.obj fields)
    return ⟨moduleName, key, attributes⟩
  -- a text can be flattened, and then `id` is looked for in it
  | .nested _ _ (.str t) => .error (if "id".toList <:+: t then .typeError else .attributeError)
  | .nested _ _ _ => .error .attributeError
  | .failing e => .error e

/-- `iterresources`: what a generator yields up to the first exception. Each step has
random numbers of its own. -/
def iterresources (repr : Json → Text) (draw : ℕ → ℕ → ℕ) (files : List State) :
    List (Except Raised Record) :=
  (files.flatMap (State.entries repr)).mapIdx fun i e => e.read (draw i)

end Kubespray.Terraform
