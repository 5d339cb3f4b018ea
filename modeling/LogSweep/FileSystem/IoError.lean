import LogSweep.Text.Digits

/-! The causes for which an operation on files or on the output fails. -/
namespace LogSweep

/-- Why an operation on files or on the output fails. -/
inductive IoError where
  | notFound
  | denied
  | notDirectory
  | isDirectory
  | noSpace
  | nameTooLong
  | linkLoop
  /-- The content of a file is not UTF-8. -/
  | invalidText
  | zeroInPath
  /-- A failure that its source describes. -/
  | described (message : Text)
  deriving DecidableEq, Repr

namespace IoError

def system (message : String) (number : Nat) : Text :=
  message.toList ++ " (os error ".toList ++ Text.ofNat number ++ [')']

def message : IoError → Text
  | notFound => system "No such file or directory" 2
  | denied => system "Permission denied" 13
  | notDirectory => system "Not a directory" 20
  | isDirectory => system "Is a directory" 21
  | noSpace => system "No space left on device" 28
  | nameTooLong => system "File name too long" 36
  | linkLoop => system "Too many levels of symbolic links" 40
  | invalidText => "stream did not contain valid UTF-8".toList
  | zeroInPath => "file name contained an unexpected NUL byte".toList
  | described m => m

end IoError
end LogSweep
