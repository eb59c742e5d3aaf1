import LoxLang.Main
import LoxLang.Proofs.Machine.Reached
import LoxLang.Proofs.Scope.Contexts
import LoxLang.Proofs.Scope.Distances
import LoxLang.Proofs.Session.Arrays
import LoxLang.Proofs.Session.CallLimit
import LoxLang.Proofs.Session.Construction
import LoxLang.Proofs.Session.Conversation
import LoxLang.Proofs.Session.Dispatch
import LoxLang.Proofs.Session.Errors
import LoxLang.Proofs.Session.Hygiene
import LoxLang.Proofs.Session.OwnInitializers
import LoxLang.Proofs.Session.Rejection
import LoxLang.Proofs.Session.Rounds
import LoxLang.Proofs.Session.Splitting
import LoxLang.Proofs.Session.Termination
import LoxLang.Proofs.Store.Access
import LoxLang.Proofs.Syntax.Continuation
import LoxLang.Proofs.Syntax.Finished
import LoxLang.Proofs.Syntax.Language
import LoxLang.Proofs.Syntax.Progress
import LoxLang.Proofs.Token.ByteReading
import LoxLang.Proofs.Token.Lines
import LoxLang.Proofs.Token.Numerals
import LoxLang.Proofs.Token.Respacing
