import FileRelay.Encoding

/-!
# Fault — what can go wrong with files, contents and deliveries

Three kinds of failure stand behind those of a transfer: an operation of the file system or of an
output (`IoFault`), the content of a part or the name of a file (`ContentError`), and the log or the
store (`DeliveryError`).  Each has its wording here.
-/

namespace FileRelay

/-- Why an operation of the file system or of an output failed. -/
inductive IoFault where
  | notFound
  | isADirectory
  | notADirectory
  | alreadyExists
  | nameTooLong
  | nullInPath
  | notText
  | nothingWritten
  | other (text : String)
  deriving DecidableEq, Repr

/-- The wording of a fault. -/
def IoFault.message : IoFault → String
  | notFound => "No such file or directory (os error 2)"
  | isADirectory => "Is a directory (os error 21)"
  | notADirectory => "Not a directory (os error 20)"
  | alreadyExists => "File exists (os error 17)"
  | nameTooLong => "File name too long (os error 36)"
  | nullInPath => "file name contained an unexpected NUL byte"
  | notText => "stream did not contain valid UTF-8"
  | nothingWritten => "failed to write whole buffer"
  | other text => text

/-- Why a name cannot be that of an output file. -/
inductive NameFault where
  | blank
  | absolute (name : String)
  | parent (name : String)
  | notBare (name : String)
  deriving DecidableEq, Repr

/-- The wording of a name's fault. -/
def NameFault.message : NameFault → String
  | blank => "empty file name"
  | absolute name => "absolute path not allowed: " ++ name
  | parent name => "parent directory traversal not allowed: " ++ name
  | notBare name => "expected a bare file name: " ++ name

/-- **Why a content cannot be had**, or an output not be named. -/
inductive ContentError where
  | io (fault : IoFault)
  | unsupportedAlgorithm (name : String)
  | undecodable (encoding : Encoding)
  | badName (fault : NameFault)
  deriving DecidableEq, Repr

/-- The wording of an error of content. -/
def ContentError.message : ContentError → String
  | io fault => "I/O error: " ++ fault.message
  | unsupportedAlgorithm name => "unsupported digest algorithm: " ++ name
  | undecodable encoding => encoding.name ++ " codec failed: no content of the size expected"
  | badName fault => "invalid path: " ++ fault.message

/-- **Why the log or the store did not do what was asked.** -/
inductive DeliveryError where
  | timeout
  | closed
  | failed (text : String)
  deriving DecidableEq, Repr

namespace DeliveryError

/-- The wording of an error of delivery. -/
def message : DeliveryError → String
  | timeout => "timed out waiting for a message"
  | closed => "subscription closed"
  | failed text => "transport failure: " ++ text

/-- Did only time run out? -/
def isTimeout : DeliveryError → Bool
  | timeout => true
  | _ => false

end DeliveryError

end FileRelay
