import Plumed.Core.MultiValue
import Plumed.Core.ActionSet
import Plumed.Core.ActionWithArguments
import Plumed.Core.ForceLayout
import Plumed.Core.PlumedMain
import Plumed.Tools.Vector
import Plumed.Function.FunctionOfVector
import Plumed.Contour.FindContour
import Plumed.Multicolvar.MultiColvarBase
import Plumed.Multicolvar.Distance
import Plumed.Rascal.RascalSpherical
import Plumed.Secondarystructure.SecondaryStructureRMSD
import Plumed.Adjmat.DissimilarityMatrix
import Plumed.Matrixtools.FunctionOfMatrix
import Plumed.Tools.Convert
import Plumed.Tools.Matrix
import Plumed.Multicolvar.ExpandFunctions
import Plumed.Tools.Cholesky
import Plumed.Tools.Invert
import Plumed.Core.ActionShortcut
import Plumed.Function.Chaining
import Plumed.Tools.Lapack
import Plumed.Multicolvar.Angle
import Plumed.Core.Calc
import Plumed.Core.NumericalDerivatives
import Plumed.Core.Lifecycle
import Plumed.Core.Expansion
import Plumed.Symfunc.RadialTetra
import Plumed.Gridtools.HistogramBase
import Plumed.Core.Timers
import Plumed.Colvar.PCAVars
