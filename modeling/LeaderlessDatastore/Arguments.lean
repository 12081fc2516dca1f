import LeaderlessDatastore.ClientConfig
import LeaderlessDatastore.Emplace

/-!
# The command line

`parseArguments`, which server and client share but for the short names of the options, and the
constructors that read its result.
-/

namespace LeaderlessDatastore

/-! ## `parseArguments` -/

namespace Arguments

/-- `argv[i][0] == '-' && argv[i][1] != '\\0'` -/
def isOption : Text → Bool
  | '-' :: _ :: _ => true
  | _ => false

/-- The argument without its dashes, of which there are one or two. -/
def optionKey : Text → Text
  | '-' :: '-' :: key => key
  | _ :: key => key
  | [] => []

/-- The loop, with the `key` found last and `foundKey`. -/
def parseFrom (getKey : Text → Text) : List Text → Text → Bool → List (Text × Text) →
    List (Text × Text)
  | [], _, _, arguments => arguments
  | arg :: argv, key, foundKey, arguments =>
    if isOption arg then
      parseFrom getKey argv (optionKey arg) (optionKey arg ≠ []) arguments
    else if foundKey then parseFrom getKey argv key false (emplace arguments (getKey key) arg)
    else parseFrom getKey argv key foundKey arguments

/-- `parseArguments`, of the arguments behind the name of the program. -/
def parseArguments (getKey : Text → Text) (argv : List Text) : List (Text × Text) :=
  parseFrom getKey argv [] false []

/-- The options that are followed by a value, each with that value. -/
def given (getKey : Text → Text) : List Text → List (Text × Text)
  | arg :: value :: argv =>
    if isOption arg ∧ optionKey arg ≠ [] ∧ !isOption value then
      (getKey (optionKey arg), value) :: given getKey (value :: argv)
    else given getKey (value :: argv)
  | _ => []

variable {getKey : Text → Text} {arg value : Text} {argv : List Text}

theorem given_cons_of_not (h : ¬ isOption arg) :
    given getKey (arg :: argv) = given getKey argv := by
  cases argv with
  | nil => rfl
  | cons value argv => simp [given, h]

theorem given_option (harg : isOption arg) (hkey : optionKey arg ≠ []) (hvalue : ¬ isOption value) :
    given getKey (arg :: value :: argv) =
      (getKey (optionKey arg), value) :: given getKey argv := by
  rw [given, if_pos ⟨harg, hkey, by simpa using hvalue⟩, given_cons_of_not hvalue]

/-- The loop between two options, and right behind one. -/
theorem parseFrom_eq (key : Text) (arguments : List (Text × Text)) :
    parseFrom getKey argv key false arguments =
      (given getKey argv).foldl (fun m entry => emplace m entry.1 entry.2) arguments ∧
    ∀ arg, isOption arg →
      parseFrom getKey argv (optionKey arg) (optionKey arg ≠ []) arguments =
        (given getKey (arg :: argv)).foldl (fun m entry => emplace m entry.1 entry.2)
          arguments := by
  induction argv generalizing key arguments with
  | nil => exact ⟨rfl, fun _ _ => rfl⟩
  | cons value argv ih =>
    by_cases hvalue : isOption value
    · have hnext := (ih key arguments).2 value hvalue
      refine ⟨by rw [parseFrom, if_pos hvalue, hnext], fun arg harg => ?_⟩
      rw [parseFrom, if_pos hvalue, hnext, given, if_neg (by simp [hvalue])]
    · refine ⟨?_, fun arg harg => ?_⟩
      · rw [parseFrom, if_neg hvalue, if_neg Bool.false_ne_true, (ih key arguments).1,
          given_cons_of_not hvalue]
      · by_cases hkey : optionKey arg = []
        · have hrest := (ih (optionKey arg) arguments).1
          simp only [parseFrom, hvalue, hkey, given, given_cons_of_not hvalue] at hrest ⊢
          simpa using hrest
        · rw [given_option harg hkey hvalue, parseFrom, if_neg hvalue, if_pos (by simpa using hkey),
            (ih _ _).1, List.foldl_cons]

/-- An option has the first value that follows it anywhere. -/
theorem lookup_parseArguments (k : Text) :
    (parseArguments getKey argv).lookup k = (given getKey argv).lookup k := by
  rw [parseArguments, (parseFrom_eq [] []).1, lookup_foldl_emplace, List.nil_append]

/-- Each option that is read has the same value, the first one that it is given. -/
def Same (getKey : Text → Text) (options : List Text) (argv argv' : List Text) : Prop :=
  ∀ k ∈ options, (given getKey argv).lookup k = (given getKey argv').lookup k

instance (getKey : Text → Text) (options argv argv' : List Text) :
    Decidable (Same getKey options argv argv') := by
  unfold Same
  infer_instance

theorem Same.lookup_eq {options argv' : List Text} (h : Same getKey options argv argv') {k : Text}
    (hk : k ∈ options) :
    (parseArguments getKey argv).lookup k = (parseArguments getKey argv').lookup k := by
  rw [lookup_parseArguments, lookup_parseArguments, h k hk]

end Arguments

/-! ## The constructors -/

open Arguments

namespace ServerConfig

/-- What the constructor passes to `initialize`. -/
structure Start where
  configPath : Text
  replicaId : ℤ
  datastorePath : Text
  loadDatastore : Bool
  deriving DecidableEq

def getKey (key : Text) : Text :=
  if key = "c".toList then "config".toList
  else if key = "d".toList then "datastore".toList
  else if key = "l".toList then "load".toList
  else if key = "r".toList then "replica".toList
  else key

/-- `ServerConfig::ServerConfig(int argc, char *argv[])` -/
def ofArguments (argv : List Text) : Except Text Start :=
  let arguments := parseArguments getKey argv
  match arguments.lookup "replica".toList with
  | none => .error "You need to specify the number of the replica (starting from 0).".toList
  | some replica =>
    match Text.stoi replica with
    | .error _ => .error "The replica number must be an integer.".toList
    | .ok replicaId => .ok {
        configPath := (arguments.lookup "config".toList).getD "../config/server.yaml".toList
        replicaId := replicaId
        datastorePath := (arguments.lookup "datastore".toList).getD
          ("../data/".toList ++ Text.ofInt replicaId ++ ".db".toList)
        loadDatastore :=
          match arguments.lookup "load-datastore".toList with
          | some load =>
            match Text.stoi load with
            | .ok n => n ≠ 0
            | .error _ => true
          | none => true }

/-- The options that the constructor asks for; `-l` is none of them. -/
def options : List Text :=
  ["replica".toList, "config".toList, "datastore".toList, "load-datastore".toList]

end ServerConfig

namespace ClientConfig

def getKey (key : Text) : Text := if key = "c".toList then "config".toList else key

/-- The path that `ClientConfig::ClientConfig(int argc, char *argv[])` passes to `initialize`. -/
def ofArguments (argv : List Text) : Text :=
  ((parseArguments getKey argv).lookup "config".toList).getD "../config/client.yaml".toList

def options : List Text := ["config".toList]

end ClientConfig

namespace Arguments

variable {argv argv' : List Text}

/-- Neither the order of the options nor their spelling, nor what is given again or to any other
option, changes what the program is started with. -/
theorem ofArguments_eq (h : Same ServerConfig.getKey ServerConfig.options argv argv')
    {line line' : List Text} (h' : Same ClientConfig.getKey ClientConfig.options line line') :
    ServerConfig.ofArguments argv = ServerConfig.ofArguments argv' ∧
      ClientConfig.ofArguments line = ClientConfig.ofArguments line' := by
  constructor
  · unfold ServerConfig.ofArguments
    dsimp only
    rw [h.lookup_eq (k := "replica".toList) (by decide),
      h.lookup_eq (k := "config".toList) (by decide),
      h.lookup_eq (k := "datastore".toList) (by decide),
      h.lookup_eq (k := "load-datastore".toList) (by decide)]
  · unfold ClientConfig.ofArguments
    rw [h'.lookup_eq (by decide)]

def shortLine : List Text :=
  ["-l".toList, "0".toList, "-c".toList, "f".toList, "-r".toList, "1".toList, "-r".toList,
    "0".toList]

def longLine : List Text :=
  ["--replica".toList, "1".toList, "x".toList, "--config".toList, "f".toList]

/-- `-l 0` and the second `-r` are ignored, and the short names stand for the long ones. -/
theorem ofArguments_eq_short :
    ServerConfig.ofArguments shortLine = .ok ⟨"f".toList, 1, "../data/1.db".toList, true⟩ ∧
      ClientConfig.ofArguments shortLine = "f".toList := by
  obtain ⟨hserver, hclient⟩ := @ofArguments_eq shortLine longLine (by decide)
    shortLine longLine (by decide)
  rw [hserver, hclient]
  decide

end Arguments
end LeaderlessDatastore
