import OpMachine.Document.Tree
import OpMachine.Document.Values
import OpMachine.Factory.Binding
import OpMachine.Sample
import OpMachine.Proofs.ArrayMethods
import OpMachine.Proofs.ArrayPlaces
import OpMachine.Proofs.CallCycles
import OpMachine.Proofs.DetachedStores
import OpMachine.Proofs.DisplayNames
import OpMachine.Proofs.FunctionIdentity
import OpMachine.Proofs.HashCoordinates
import OpMachine.Proofs.IntegerOperators
import OpMachine.Proofs.IntegerTexts
import OpMachine.Proofs.Isolation
import OpMachine.Proofs.PooledLiterals
import OpMachine.Proofs.Preorder
import OpMachine.Proofs.ReadBack
import OpMachine.Proofs.SealedUnits
import OpMachine.Proofs.SlotRequests
